import Wandika.Proofs.Parser.Termination

/-!
# One token of lookahead

However a rule ends, it has looked at the tokens that it has taken and at the next one, and at no
other. So what comes after that one could be anything.

* `Cursor.Alike`: two cursors have the same next token and the same next free number;
* `Parser.Single.moves`: single actions do the same at such cursors;
* `Parser.LooksAhead`: an action ends alike whatever comes after the next token;
* `Parser.Deepens.looksAhead`: so does everything that is composed of single actions;
* `Program.parse_rejected`: and so does the parser when it rejects a token.
-/

namespace Wandika

/-- The same token is the next one, and the same number is the next free one. -/
structure Cursor.Alike (c d : Cursor) : Prop where
  head : d.rest.head? = c.rest.head?
  nextId : d.nextId = c.nextId

namespace Cursor.Alike

variable {c d : Cursor}

theorem peek (h : c.Alike d) : d.peek = c.peek := by
  rw [Cursor.peek, Cursor.peek, List.headD_eq_head?_getD, List.headD_eq_head?_getD, h.head]

theorem atEnd (h : c.Alike d) : d.atEnd = c.atEnd := by
  rw [Cursor.atEnd, Cursor.atEnd, h.peek]

theorem sees (h : c.Alike d) (kind : Kind) : d.sees kind = c.sees kind := by
  rw [Cursor.sees, Cursor.sees, h.atEnd, h.peek]

/-- With the same tokens before them. -/
theorem after (h : c.Alike d) (us : List Token) (id : Nat) :
    Cursor.Alike ⟨us ++ c.rest, id⟩ ⟨us ++ d.rest, id⟩ := by
  refine ⟨?_, rfl⟩
  cases us with
  | nil => exact h.head
  | cons u us => rfl

end Cursor.Alike

/-- Two cursors are moved in the same way: both are left as they were, both lose the same token, or
the next free number is handed out at both. -/
inductive Cursor.Moves (c d : Cursor) : Cursor → Cursor → Prop
  | stay : Moves c d c d
  | takes {t : Token} {c' d' : Cursor} (h : c.Takes t c') (h' : d.Takes t d') : Moves c d c' d'
  | numbers : Moves c d { c with nextId := c.nextId + 1 } { d with nextId := d.nextId + 1 }

theorem Cursor.Moves.of_sees {c d : Cursor} (h : c.Alike d) {kind : Kind}
    (hsees : c.sees kind = true) : c.Moves d c.advance d.advance := by
  have hd : d.sees kind = true := (h.sees kind).trans hsees
  refine .takes (Cursor.sees_eq_true hsees).1 ?_
  rw [← h.peek]
  exact (Cursor.sees_eq_true hd).1

/-- As many tokens are gone after the second move as after the first one. -/
theorem Cursor.Moves.eq {c d c' d' d'' : Cursor} {us : List Token} (h : c.Moves d c' d'')
    (hc : c.rest = us ++ c'.rest) (hd : d.rest = us ++ d'.rest) (hnext : d.nextId = c.nextId)
    (hnext' : d'.nextId = c'.nextId) : d'' = d' := by
  obtain ⟨rest', next'⟩ := d'
  cases h with
  | stay =>
    obtain rfl : us = [] := List.self_eq_append_left.1 hc
    obtain ⟨rest, next⟩ := d
    cases hd
    exact congrArg _ (hnext.trans hnext'.symm)
  | @takes t _ _ ht ht' =>
    obtain rfl : us = [t] := List.append_cancel_right (hc.symm.trans ht.rest)
    obtain ⟨rest'', next''⟩ := d''
    have hrest : rest'' = rest' := (List.cons.inj (ht'.rest.symm.trans hd)).2
    have hid : next'' = next' :=
      (ht'.nextId.trans hnext).trans (ht.nextId.symm.trans hnext'.symm)
    rw [hrest, hid]
  | numbers =>
    obtain rfl : us = [] := List.self_eq_append_left.1 hc
    obtain ⟨rest, next⟩ := d
    cases hd
    have hid : next + 1 = next' := (congrArg (· + 1) hnext).trans hnext'.symm
    exact congrArg _ hid

namespace Parser

variable {α : Type} {act act' : Parser α}

/-- A single action does the same at cursors that are alike. -/
theorem Single.moves (hact : Single act) {c d : Cursor} (h : c.Alike d) :
    (outcome act d).1 = (outcome act c).1 ∧ c.Moves d (outcome act c).2 (outcome act d).2 := by
  cases hact with
  | pure | throw => exact ⟨rfl, .stay⟩
  | reject cause =>
    refine ⟨?_, .stay⟩
    show Except.error (Failure.rejected ⟨d.peek, cause⟩) = .error (.rejected ⟨c.peek, cause⟩)
    rw [h.peek]
  | sees kind =>
    refine ⟨?_, .stay⟩
    show Except.ok (d.sees kind) = .ok (c.sees kind)
    rw [h.sees]
  | atEnd =>
    refine ⟨?_, .stay⟩
    show Except.ok d.atEnd = .ok c.atEnd
    rw [h.atEnd]
  | freshId =>
    refine ⟨?_, .numbers⟩
    show Except.ok d.nextId = .ok c.nextId
    rw [h.nextId]
  | acceptAny kinds =>
    have hany : kinds.any d.sees = kinds.any c.sees := by
      congr 1
      funext kind
      exact h.sees kind
    unfold outcome Parser.acceptAny
    rw [hany]
    by_cases hsees : kinds.any c.sees = true
    · rw [if_pos hsees, if_pos hsees, h.peek]
      obtain ⟨kind, -, hkind⟩ := List.any_eq_true.1 hsees
      exact ⟨rfl, .of_sees h hkind⟩
    · rw [if_neg hsees, if_neg hsees]
      exact ⟨rfl, .stay⟩
  | expect kind cause =>
    unfold outcome Parser.expect
    rw [h.sees, h.peek]
    by_cases hsees : c.sees kind = true
    · rw [if_pos hsees, if_pos hsees]
      exact ⟨rfl, .of_sees h hsees⟩
    · rw [if_neg hsees, if_neg hsees]
      exact ⟨rfl, .stay⟩

/-- When the action has taken some tokens and has stopped, it would have done the same with any
other tokens after the next one. -/
def LooksAhead (act : Parser α) : Prop :=
  ∀ (us : List Token) (c' d' : Cursor) (id : Nat) (r : Except Failure α),
    outcome act ⟨us ++ c'.rest, id⟩ = (r, c') → c'.Alike d' →
      outcome act ⟨us ++ d'.rest, id⟩ = (r, d')

theorem Single.looksAhead (hact : Single act) : LooksAhead act := by
  intro us c' d' id r hrun h
  obtain ⟨hanswer, hmoves⟩ := hact.moves (h.after us id)
  rw [hrun] at hanswer hmoves
  generalize outcome act ⟨us ++ d'.rest, id⟩ = o at hanswer hmoves
  obtain ⟨r', d''⟩ := o
  cases hanswer
  exact congrArg (Prod.mk r) (hmoves.eq rfl rfl rfl h.nextId)

/-- What is composed of single actions looks ahead no further than they do. -/
theorem Deepens.looksAhead (hact : Deepens act act') : LooksAhead act := by
  induction hact with
  | single hact => exact hact.looksAhead
  | exhausted => exact (Single.throw .exhausted).looksAhead
  | @bind _ _ act _ next _ hact hnext ih ihn =>
    intro us c' d' id r hrun h
    have honward := hact.onward ⟨us ++ c'.rest, id⟩
    rw [outcome_bind] at hrun ⊢
    generalize ho : outcome act ⟨us ++ c'.rest, id⟩ = o at hrun honward
    obtain ⟨r₁, c₁⟩ := o
    cases r₁ with
    | error e =>
      cases hrun
      rw [ih us c' d' id _ ho h]
    | ok b =>
      -- the tokens taken are split where the second action begins
      have hrun : outcome (next b) c₁ = (r, c') := hrun
      have honward' := (hnext b).onward c₁
      rw [hrun] at honward'
      obtain ⟨us₁, hus₁⟩ := honward.rest
      obtain ⟨us₂, hus₂⟩ := honward'.rest
      dsimp only at hus₁ hus₂
      obtain rfl : us = us₁ ++ us₂ := by
        have hall : us ++ c'.rest = (us₁ ++ us₂) ++ c'.rest := by
          rw [← hus₁, ← hus₂, List.append_assoc]
        exact List.append_cancel_right hall
      have hmiddle := h.after us₂ c₁.nextId
      rw [hus₂] at hmiddle
      have hfirst := ih us₁ c₁ _ id (.ok b) (by rw [hus₁, ho]) hmiddle
      have hsecond := ihn b us₂ c' d' c₁.nextId r (by rw [hus₂]; exact hrun) h
      rw [List.append_assoc, hfirst]
      exact hsecond

/-- The action ends alike on all tokens that agree up to the one where it stopped. -/
theorem LooksAhead.of_agree (h : LooksAhead act) {ts ts' : List Token} {id p : Nat}
    {r : Except Failure α} {c : Cursor} (hrun : outcome act ⟨ts, id⟩ = (r, c))
    (hc : c.rest = ts.drop p) (hagree : ts'.take (p + 1) = ts.take (p + 1)) :
    outcome act ⟨ts', id⟩ = (r, ⟨ts'.drop p, c.nextId⟩) := by
  have htake : ts'.take p = ts.take p := by
    have := congrArg (List.take p) hagree
    simpa [List.take_take] using this
  have hhead : (ts'.drop p).head? = (ts.drop p).head? := by
    have := congrArg (fun xs : List Token => xs[p]?) hagree
    simpa [List.head?_drop] using this
  have hlook := h (ts.take p) c ⟨ts'.drop p, c.nextId⟩ id r
  rw [hc, List.take_append_drop, ← htake, List.take_append_drop] at hlook
  exact hlook hrun ⟨hc ▸ hhead, rfl⟩

/-- A bound that is larger than the one that suits the cursor makes no difference. -/
theorem outcome_statements {c : Cursor} (hc : c.Valued) {n : Nat} (hn : depthFor c ≤ n) :
    outcome (statements n) c = outcome (statements (depthFor c)) c := by
  rcases (Deepens.statements hn).outcome_eq c with hexhausted | heq
  · have hends := statements_terminating (depthFor c) c hc
    unfold outcome at hexhausted
    unfold Continues Ensures at hends
    cases hrun : statements (depthFor c) c with
    | ok ss c' =>
      rw [hrun] at hexhausted
      cases hexhausted
    | error e c' =>
      rw [hrun] at hexhausted hends
      cases hexhausted
      refine absurd ?_ hends
      unfold depthFor
      omega
  · exact heq

end Parser

/-! ### Rejected tokens -/

theorem Program.parse_eq_error_iff {c c' : Cursor} {f : Failure} :
    Program.parse c = (.error f, c') ↔
      Parser.outcome (Parser.statements (Parser.depthFor c)) c = (.error f, c') := by
  rw [Program.parse_eq]
  generalize Parser.outcome (Parser.statements (Parser.depthFor c)) c = o
  obtain ⟨r, d⟩ := o
  cases r with
  | ok ss => simp [Except.map]
  | error e => simp [Except.map]

/-- When the parser has rejected some tokens at the one of the index, it rejects all tokens that
agree with them up to there, and in the same way. -/
theorem Program.parse_rejected {ts ts' : List Token} {e : ParseError} {c : Cursor} {p : Nat}
    (h : Program.parse { rest := ts } = (.error (.rejected e), c)) (hc : c.rest = ts.drop p)
    (hp : p < ts.length) (hvalued : ∀ t ∈ ts, t.Valued)
    (hagree : ts'.take (p + 1) = ts.take (p + 1)) :
    Program.parse { rest := ts' } = (.error (.rejected e), ⟨ts'.drop p, c.nextId⟩) := by
  -- the tokens up to the rejected one are enough, and so is the bound that suits them
  let short : Cursor := { rest := ts.take (p + 1) }
  have hshort : short.rest.length = p + 1 := by
    rw [List.length_take]
    omega
  have hlength : p + 1 ≤ ts'.length := by
    have hlen := congrArg List.length hagree
    rw [List.length_take, List.length_take] at hlen
    omega
  have hself : short.rest.take (p + 1) = ts.take (p + 1) := by simp [short, List.take_take]
  rw [Program.parse_eq_error_iff] at h ⊢
  have hcut : Parser.outcome (Parser.statements (Parser.depthFor short)) short =
      (.error (.rejected e), ⟨short.rest.drop p, c.nextId⟩) := by
    have hle : Parser.depthFor short ≤ Parser.depthFor { rest := ts } := by
      simp only [Parser.depthFor, hshort]
      omega
    have hvalued' : short.Valued := fun t ht => hvalued t (List.mem_of_mem_take ht)
    rw [← Parser.outcome_statements hvalued' hle]
    exact (Parser.Deepens.statements (Nat.le_refl _)).looksAhead.of_agree h hc hself
  have hlong : Parser.outcome (Parser.statements (Parser.depthFor short)) { rest := ts' } =
      (.error (.rejected e), ⟨ts'.drop p, c.nextId⟩) :=
    (Parser.Deepens.statements (Nat.le_refl _)).looksAhead.of_agree
      (c := ⟨short.rest.drop p, c.nextId⟩) hcut rfl (hagree.trans hself.symm)
  have hle : Parser.depthFor short ≤ Parser.depthFor { rest := ts' } := by
    simp only [Parser.depthFor, hshort]
    omega
  rcases (Parser.Deepens.statements hle).outcome_eq { rest := ts' } with hexhausted | heq
  · rw [hlong] at hexhausted
    cases hexhausted
  · rw [heq, hlong]

end Wandika
