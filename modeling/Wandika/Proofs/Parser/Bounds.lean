import Wandika.Proofs.Parser.Termination
import Wandika.Proofs.Token.Standard

/-!
# A parser stays within its tokens

* `Complete`: tokens that end in their only end mark, and whose numbers and strings carry literals;
* `Parser.Passes`: the cursors that a run passes, from one single action to the next;
* `Parser.Passes.related`: what every single action keeps holds between all of them;
* `Cursor.afterCalls`: where a parser stands after some runs on any tokens;
* `parser_in_bounds`: the runs of a parser, one after another, end and stay within the tokens.
-/

namespace Wandika

/-! ### Complete tokens -/

/-- The tokens end in their only end mark, and their numbers and strings carry literals. -/
structure Complete (ts : List Token) : Prop where
  ends : ∃ body mark, ts = body ++ [mark] ∧ mark.kind = .eof ∧ ∀ t ∈ body, t.kind ≠ .eof
  valued : ∀ t ∈ ts, t.Valued

theorem Token.Standard.valued {t : Token} (h : t.Standard) : t.Valued := by
  unfold Token.Standard at h
  constructor
  · intro hk
    simpa only [hk] using h
  · intro hk
    simp only [hk] at h
    obtain ⟨s, hs, -⟩ := h
    exact ⟨s, hs⟩

theorem complete_scan (source : List Char) : Complete (scan source).tokens := by
  obtain ⟨body, hbody, hb⟩ := tokens_scan source
  refine ⟨⟨body, _, hbody, rfl, fun t ht => (hb t ht).2⟩, fun t ht => ?_⟩
  exact (standard_of_mem_scan ht).valued

/-- An end mark is left. -/
def Cursor.Ended (c : Cursor) : Prop := ∃ t ∈ c.rest, t.kind = .eof

/-- The end mark is never passed. -/
theorem Cursor.Ended.advance {c : Cursor} (h : c.Ended) : c.advance.Ended := by
  obtain ⟨t, ht, hk⟩ := h
  unfold Cursor.advance
  by_cases hend : c.atEnd = true
  · rw [if_pos hend]
    exact ⟨t, ht, hk⟩
  · rw [if_neg hend]
    cases hrest : c.rest with
    | nil =>
      rw [hrest] at ht
      cases ht
    | cons u us =>
      rw [hrest] at ht
      rcases List.mem_cons.1 ht with rfl | ht
      · exact absurd (by simp [Cursor.atEnd, Cursor.peek, hrest, hk]) hend
      · exact ⟨t, ht, hk⟩

/-! ### The cursors of a run -/

namespace Parser

/-- The action passes the cursors and ends so. It is composed of single actions, and the cursors are
those before and after each of them. -/
inductive Passes : ∀ {α : Type}, Parser α → Cursor → List Cursor → Except Failure α × Cursor → Prop
  | single {α : Type} {act : Parser α} (h : Single act) (c : Cursor) :
      Passes act c [c, (outcome act c).2] (outcome act c)
  | fails {α β : Type} {act : Parser β} {next : β → Parser α} {c c₁ : Cursor} {cs : List Cursor}
      {e : Failure} (h : Passes act c cs (.error e, c₁)) :
      Passes (act >>= next) c cs (.error e, c₁)
  | goesOn {α β : Type} {act : Parser β} {next : β → Parser α} {c c₁ : Cursor}
      {cs ds : List Cursor} {b : β} {r : Except Failure α × Cursor}
      (h : Passes act c cs (.ok b, c₁)) (hn : Passes (next b) c₁ ds r) :
      Passes (act >>= next) c (cs ++ ds) r

variable {α : Type} {act act' : Parser α} {c : Cursor} {cs : List Cursor}
  {r : Except Failure α × Cursor}

/-- What is composed of single actions passes some cursors. -/
theorem Deepens.passes (h : Deepens act act') (c : Cursor) :
    ∃ cs, Passes act c cs (outcome act c) := by
  induction h generalizing c with
  | single h => exact ⟨_, .single h c⟩
  | exhausted => exact ⟨_, .single (.throw .exhausted) c⟩
  | @bind _ _ act _ next _ _ _ ih ihn =>
    obtain ⟨cs, hcs⟩ := ih c
    rw [outcome_bind]
    generalize outcome act c = o at hcs
    obtain ⟨r, c₁⟩ := o
    cases r with
    | ok b =>
      obtain ⟨ds, hds⟩ := ihn b c₁
      exact ⟨_, hcs.goesOn hds⟩
    | error e => exact ⟨cs, hcs.fails⟩

/-- A relation that holds between the cursors before and after every single action holds between
any two cursors that a run passes. -/
theorem Passes.related {R : Cursor → Cursor → Prop} (refl : ∀ c, R c c)
    (trans : ∀ c c₁ c₂, R c c₁ → R c₁ c₂ → R c c₂)
    (step : ∀ {α : Type} {act : Parser α}, Single act → ∀ c, R c (outcome act c).2)
    (h : Passes act c cs r) : R c r.2 ∧ cs.Pairwise R ∧ ∀ d ∈ cs, R c d ∧ R d r.2 := by
  induction h with
  | single h c =>
    have hstep := step h c
    refine ⟨hstep, List.pairwise_pair.2 hstep, ?_⟩
    simp only [List.forall_mem_cons, List.not_mem_nil, false_implies, implies_true, and_true]
    exact ⟨⟨refl c, hstep⟩, hstep, refl _⟩
  | fails _ ih => exact ih
  | goesOn _ _ ih ihn =>
    obtain ⟨hfirst, hcs, hends⟩ := ih
    obtain ⟨hsecond, hds, hbegins⟩ := ihn
    refine ⟨trans _ _ _ hfirst hsecond, List.pairwise_append.2 ⟨hcs, hds, ?_⟩, ?_⟩
    · intro d hd d' hd'
      exact trans _ _ _ (hends d hd).2 (hbegins d' hd').1
    · intro d hd
      rcases List.mem_append.1 hd with hd | hd
      · exact ⟨(hends d hd).1, trans _ _ _ (hends d hd).2 hsecond⟩
      · exact ⟨trans _ _ _ hfirst (hbegins d hd).1, (hbegins d hd).2⟩

/-- The first cursor is where the run begins, the last one where it ends. -/
theorem Passes.ends (h : Passes act c cs r) : cs.head? = some c ∧ cs.getLast? = some r.2 := by
  induction h with
  | single => exact ⟨rfl, rfl⟩
  | fails _ ih => exact ih
  | goesOn _ _ ih ihn => simp [ih.1, ihn.2]

theorem Single.ended (h : Single act) (hc : c.Ended) : (outcome act c).2.Ended := by
  rcases h.cursor_cases c with hcases | hcases | hcases <;> rw [hcases]
  · exact hc
  · exact hc.advance
  · exact hc

/-- The cursors of a run never go back, and none of them lies behind the end mark. -/
theorem Passes.onward (h : Passes act c cs r) (hc : c.Ended) :
    (c.Onward r.2 ∧ r.2.Ended) ∧ cs.Pairwise Cursor.Onward ∧ ∀ d ∈ cs, c.Onward d ∧ d.Ended := by
  obtain ⟨hend, hpairs, hmem⟩ := h.related (R := fun d d' => d.Onward d' ∧ (d.Ended → d'.Ended))
    (fun d => ⟨.refl d, fun h => h⟩)
    (fun d d₁ d₂ h h' => ⟨h.1.trans h'.1, fun hd => h'.2 (h.2 hd)⟩)
    (fun hsingle d => ⟨hsingle.onward d, hsingle.ended⟩)
  refine ⟨⟨hend.1, hend.2 hc⟩, hpairs.imp fun h => h.1, fun d hd => ?_⟩
  exact ⟨(hmem d hd).1.1, (hmem d hd).1.2 hc⟩

end Parser

/-! ### Runs one after another -/

/-- Where the parser of some tokens stands after some runs, each begun where the one before
stopped. -/
def Cursor.afterCalls (ts : List Token) : Nat → Cursor
  | 0 => { rest := ts }
  | k + 1 => (Program.parse (afterCalls ts k)).2

theorem Complete.afterCalls {ts : List Token} (h : Complete ts) (k : Nat) :
    (Cursor.afterCalls ts k).rest <:+ ts ∧ (Cursor.afterCalls ts k).Ended := by
  induction k with
  | zero =>
    obtain ⟨body, mark, rfl, hmark, -⟩ := h.ends
    exact ⟨List.suffix_rfl, mark, by simp [Cursor.afterCalls], hmark⟩
  | succ k ih =>
    obtain ⟨hsuffix, hended⟩ := ih
    obtain ⟨cs, hcs⟩ := (Parser.Deepens.statements (Nat.le_refl
      (Parser.depthFor (Cursor.afterCalls ts k)))).passes (Cursor.afterCalls ts k)
    have hparse := Program.parse_eq (Cursor.afterCalls ts k)
    obtain ⟨⟨honward, hended'⟩, -⟩ := hcs.onward hended
    rw [Cursor.afterCalls, hparse]
    exact ⟨honward.rest.trans hsuffix, hended'⟩

/-- What is left at a cursor of a run are the tokens from some index on, which is not behind that of
the end mark. -/
theorem Complete.index {ts : List Token} {d : Cursor} (h : d.rest <:+ ts) (hd : d.Ended) :
    ∃ i, i < ts.length ∧ d.rest = ts.drop i := by
  obtain ⟨before, rfl⟩ := h
  obtain ⟨t, ht, -⟩ := hd
  have hpos := List.length_pos_of_mem ht
  refine ⟨before.length, ?_, List.drop_left.symm⟩
  rw [List.length_append]
  omega

/-- A token that is handed out is the one before the cursor that is left. -/
theorem Cursor.handed_of_sees {ts : List Token} {d : Cursor} {kind : Kind} (h : d.rest <:+ ts)
    (hsees : d.sees kind = true) :
    ∃ i, ts[i]? = some d.peek ∧ d.advance.rest = ts.drop (i + 1) := by
  obtain ⟨before, rfl⟩ := h
  have hrest := (Cursor.sees_eq_true hsees).1.rest
  refine ⟨before.length, ?_, ?_⟩
  · rw [hrest]
    simp
  · rw [hrest]
    simp

namespace Parser

variable {ts : List Token} {d d' : Cursor} {t : Token}

theorem acceptAny_handed (h : d.rest <:+ ts) {kinds : List Kind}
    (hd : acceptAny kinds d = .ok (some t) d') :
    ∃ i, ts[i]? = some t ∧ d'.rest = ts.drop (i + 1) := by
  unfold acceptAny at hd
  by_cases hsees : kinds.any d.sees = true
  · rw [if_pos hsees] at hd
    cases hd
    obtain ⟨kind, -, hkind⟩ := List.any_eq_true.1 hsees
    exact d.handed_of_sees h hkind
  · rw [if_neg hsees] at hd
    cases hd

theorem expect_handed (h : d.rest <:+ ts) {kind : Kind} {cause : ParseCause}
    (hd : expect kind cause d = .ok t d') :
    ∃ i, ts[i]? = some t ∧ d'.rest = ts.drop (i + 1) := by
  unfold expect at hd
  by_cases hsees : d.sees kind = true
  · rw [if_pos hsees] at hd
    cases hd
    exact d.handed_of_sees h hsees
  · rw [if_neg hsees] at hd
    cases hd

end Parser

/-- A run on tokens whose numbers and strings carry their literals gives a program or rejects a
token: the bound on the depth of rules is not reached, and no literal is missing. -/
theorem Program.parse_terminates {c : Cursor} (hc : c.Valued) :
    (∃ p, (Program.parse c).1 = .ok p) ∨ ∃ e, (Program.parse c).1 = .error (.rejected e) := by
  have hends := Parser.statements_terminating (Parser.depthFor c) c hc
  have hbound : 24 * c.rest.length + 19 ≤ Parser.depthFor c := by
    unfold Parser.depthFor
    omega
  rw [Program.parse_eq]
  unfold Parser.Continues Parser.Ensures at hends
  unfold Parser.outcome
  cases hrun : Parser.statements (Parser.depthFor c) c with
  | ok ss c' => exact Or.inl ⟨_, rfl⟩
  | error e c' =>
    rw [hrun] at hends
    cases e with
    | rejected e => exact Or.inr ⟨e, rfl⟩
    | malformed => exact hends.elim
    | exhausted => exact absurd hbound hends

/-- The tokens of every text are complete. Of complete tokens, however often the parser is run, each
time from where it stopped before, the run ends: it gives a program or rejects a token, and neither
is the bound on the depth of rules reached nor a literal missing. The cursors that the run passes
never go back and stay between the first token and the end mark. A token that is taken is handed out
as the one before the cursor, and every declaration that succeeds has taken at least one. -/
theorem parser_in_bounds :
    (∀ source, Complete (scan source).tokens) ∧
    ∀ ts, Complete ts →
      (∀ k, ((∃ p, (Program.parse (.afterCalls ts k)).1 = .ok p) ∨
          ∃ e, (Program.parse (.afterCalls ts k)).1 = .error (.rejected e)) ∧
        ∃ cs, Parser.Passes (Parser.statements (Parser.depthFor (.afterCalls ts k)))
            (.afterCalls ts k) cs (Parser.outcome
              (Parser.statements (Parser.depthFor (.afterCalls ts k))) (.afterCalls ts k)) ∧
          cs.head? = some (.afterCalls ts k) ∧ cs.getLast? = some (.afterCalls ts (k + 1)) ∧
          cs.Pairwise Cursor.Onward ∧ ∀ d ∈ cs, ∃ i, i < ts.length ∧ d.rest = ts.drop i) ∧
      ∀ d : Cursor, d.rest <:+ ts →
        (∀ kinds t d', Parser.acceptAny kinds d = .ok (some t) d' →
          ∃ i, ts[i]? = some t ∧ d'.rest = ts.drop (i + 1)) ∧
        (∀ kind cause t d', Parser.expect kind cause d = .ok t d' →
          ∃ i, ts[i]? = some t ∧ d'.rest = ts.drop (i + 1)) ∧
        ∀ n s d', Parser.declaration n d = .ok s d' → d'.rest.length < d.rest.length := by
  refine ⟨complete_scan, fun ts h => ⟨fun k => ?_, fun d hd => ⟨?_, ?_, ?_⟩⟩⟩
  · obtain ⟨hsuffix, hended⟩ := h.afterCalls k
    have hvalued : (Cursor.afterCalls ts k).Valued := fun t ht => h.valued t (hsuffix.subset ht)
    refine ⟨Program.parse_terminates hvalued, ?_⟩
    obtain ⟨cs, hcs⟩ := (Parser.Deepens.statements (Nat.le_refl
      (Parser.depthFor (Cursor.afterCalls ts k)))).passes (Cursor.afterCalls ts k)
    obtain ⟨-, hpairs, hmem⟩ := hcs.onward hended
    refine ⟨cs, hcs, hcs.ends.1, ?_, hpairs, fun d hd => ?_⟩
    · rw [Cursor.afterCalls, Program.parse_eq]
      exact hcs.ends.2
    · exact Complete.index ((hmem d hd).1.rest.trans hsuffix) (hmem d hd).2
  · exact fun kinds t d' => Parser.acceptAny_handed hd
  · exact fun kind cause t d' => Parser.expect_handed hd
  · intro n s d' hrun
    have hends := (Parser.stmtTerminating n).declaration d fun t ht => h.valued t (hd.subset ht)
    unfold Parser.Progresses Parser.Ensures at hends
    rw [hrun] at hends
    exact hends.shorter

/-- The first run rejects `b`. The second one begins there and gives a program, and it stays within
the tokens from `b` on. -/
theorem parser_in_bounds_resumed : ∃ (ts : List Token) (e : ParseError) (p : Program),
    ts = (scan "a b = c;".toList).tokens ∧ Complete ts ∧
    (Program.parse (.afterCalls ts 0)).1 = .error (.rejected e) ∧
    (Program.parse (.afterCalls ts 1)).1 = .ok p ∧
    ∃ cs : List Cursor, cs.head? = some (.afterCalls ts 1) ∧ cs.Pairwise Cursor.Onward ∧
      ∀ d ∈ cs, ∃ i, i < ts.length ∧ d.rest = ts.drop i := by
  obtain ⟨ts, hts⟩ : ∃ ts, ts = (scan "a b = c;".toList).tokens := ⟨_, rfl⟩
  have hfirst : (Program.parse (.afterCalls ts 0)).1.isOk = false := by rw [hts]; decide +kernel
  have hsecond : (Program.parse (.afterCalls ts 1)).1.isOk = true := by rw [hts]; decide +kernel
  obtain ⟨hscan, hruns⟩ := parser_in_bounds
  have hcomplete : Complete ts := hts ▸ hscan _
  obtain ⟨hends, -⟩ := (hruns ts hcomplete).1 0
  obtain ⟨hends', cs, -, hhead, -, hpairs, hmem⟩ := (hruns ts hcomplete).1 1
  rcases hends with ⟨q, hq⟩ | ⟨e, he⟩
  · simp [hq, Except.isOk, Except.toBool] at hfirst
  rcases hends' with ⟨p, hp⟩ | ⟨e', he'⟩
  · exact ⟨ts, e, p, hts, hcomplete, he, hp, cs, hhead, hpairs, hmem⟩
  · simp [he', Except.isOk, Except.toBool] at hsecond

end Wandika
