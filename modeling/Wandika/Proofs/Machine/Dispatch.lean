import Wandika.Proofs.Machine.OverloadSets
import Wandika.Proofs.Machine.Writes

/-!
# Calls of a name that was declared many times

Function statements for one name in one frame bind it to a function, to another one in its place, or
to ever larger sets. A call finds the last function declared for its number of arguments.

* `Overloads.collect`: the functions that remain of a sequence of declarations;
* `Declared`: states between which only function statements bind a name of a frame;
* `Value.Collects`, `Declared.collects`: what the name is bound to after any history;
* `Reordered`: exchanges of neighbours with different numbers of parameters;
* `calls_last_declared`: what a call runs and what is printed, which no such exchange changes.
-/

namespace Wandika

/-! ### The functions that remain -/

namespace Overloads

variable {f : Closure} {fs gs : List Closure} {k : Nat}

/-- Of a number of parameters, the function put in last is found. -/
theorem find?_insert (f : Closure) (gs : List Closure) (k : Nat) :
    (insert f gs).find? (·.arity = k) =
      if f.arity = k then some f else gs.find? (·.arity = k) := by
  induction gs with
  | nil =>
    by_cases hf : f.arity = k
    · simp [insert, hf]
    · simp [insert, hf]
  | cons g gs ih =>
    by_cases hf : f.arity = k
    · rw [if_pos hf] at ih ⊢
      unfold insert
      split_ifs with hlt heq
      · exact List.find?_cons_of_pos (by simpa using hf)
      · exact List.find?_cons_of_pos (by simpa using hf)
      · rw [List.find?_cons_of_neg (by simp; omega), ih]
    · rw [if_neg hf] at ih ⊢
      unfold insert
      split_ifs with hlt heq
      · exact List.find?_cons_of_neg (by simpa using hf)
      · rw [List.find?_cons_of_neg (by simpa using hf),
          List.find?_cons_of_neg (by simpa [← heq] using hf)]
      · rw [List.find?_cons, List.find?_cons, ih]

/-- The functions that remain when each is put in its place, one after another. -/
def collect (fs : List Closure) : List Closure :=
  fs.foldl (fun gs f => insert f gs) []

theorem collect_concat (fs : List Closure) (f : Closure) :
    collect (fs ++ [f]) = insert f (collect fs) := by
  rw [collect, List.foldl_append]
  rfl

/-- The last function of each number of parameters remains. -/
theorem find?_collect (fs : List Closure) (k : Nat) :
    (collect fs).find? (·.arity = k) = fs.reverse.find? (·.arity = k) := by
  induction fs using List.reverseRecOn with
  | nil => rfl
  | append_singleton fs f ih =>
    rw [collect_concat, find?_insert, ih, List.reverse_concat, List.find?_cons]
    by_cases hf : f.arity = k
    · simp [hf]
    · simp [hf]

theorem mem_arities_collect : k ∈ (collect fs).map Closure.arity ↔ k ∈ fs.map Closure.arity := by
  have hsome : ∀ gs : List Closure,
      k ∈ gs.map Closure.arity ↔ (gs.find? (·.arity = k)).isSome := by simp
  rw [hsome, hsome, find?_collect, List.find?_isSome, List.find?_isSome]
  simp only [List.mem_reverse]

theorem pairwise_collect (fs : List Closure) :
    ((collect fs).map Closure.arity).Pairwise (· < ·) := by
  induction fs using List.reverseRecOn with
  | nil => exact .nil
  | append_singleton fs f ih =>
    rw [collect_concat]
    exact pairwise_insert ih

end Overloads

/-- A declaration puts its function into its place among those of the value that was bound. -/
theorem Store.closures_joined (bound : Option Value) (f : Closure) (id : Nat) :
    (Store.joined bound f id).closures =
      Overloads.insert f ((bound.map Value.closures).getD []) := by
  match bound with
  | none => rfl
  | some (.datum d) => rfl
  | some (.overloads o) => rfl
  | some (.function g) =>
    simp only [Store.joined, Option.map_some, Option.getD_some, Value.closures, Overloads.insert]
    by_cases harity : g.arity = f.arity
    · simp [harity]
    · simp [harity]

/-! ### Histories -/

/-- The state is reached from one in which the name is not bound in the frame. Since then the
functions were made by function statements for the name in the frame, in this order, and nothing
else has bound the name there. The session may have gone on with further units. -/
inductive Declared (mode : Mode) (frame : FrameId) (name : String) : List Closure → State → Prop
  | first {s : State} (there : frame < s.store.frames.size)
      (free : s.store.frames.lookup frame name = none) : Declared mode frame name [] s
  | declares {fs : List Closure} {s : State} {decl : FunDecl} (h : Declared mode frame name fs s)
      (hd : s.Declares frame name decl) :
      Declared mode frame name (fs ++ [s.created decl]) (s.step mode)
  | other {fs : List Closure} {s : State} (h : Declared mode frame name fs s)
      (hd : ∀ decl, ¬ s.Declares frame name decl) (hp : ∀ w, ¬ s.Puts mode frame name w) :
      Declared mode frame name fs (s.step mode)
  | next {fs : List Closure} {s : State} (h : Declared mode frame name fs s)
      (hs : s.halted = true) (stmts : List Stmt) (locals : Locals) :
      Declared mode frame name fs (State.start s.store stmts locals)

/-- All of a function except its identity. -/
def Closure.content (f : Closure) : FunDecl × FrameId × Locals := (f.decl, f.frame, f.locals)

/-- The value holds the functions that remain of those declared. It is a function if there is only
one, and else a set of the name. -/
structure Value.Collects (name : String) (fs : List Closure) (v : Value) : Prop where
  closures : v.closures = Overloads.collect fs
  wellFormed : v.WellFormed
  named : ∀ o, v = .overloads o → o.name = name

section Histories

variable {mode : Mode} {frame : FrameId} {name : String} {fs : List Closure} {s : State} {v : Value}

/-- A step that neither declares nor puts anything under a name leaves it as it was. -/
theorem State.lookup_step_untouched (hd : ∀ decl, ¬ s.Declares frame name decl)
    (hp : ∀ w, ¬ s.Puts mode frame name w) :
    (s.step mode).store.frames.lookup frame name = s.store.frames.lookup frame name := by
  cases hafter : (s.step mode).store.frames.lookup frame name with
  | some v =>
    rcases State.lookup_step_cases hafter with hput | ⟨decl, hdecl, -⟩ | ⟨hkept, -⟩
    · exact absurd hput (hp v)
    · exact absurd hdecl (hd decl)
    · exact hkept.symm
  | none =>
    cases hbefore : s.store.frames.lookup frame name with
    | none => rfl
    | some v =>
      have hkept := (State.kept_step mode s).names frame name (by rw [hbefore]; rfl)
      rw [hafter] at hkept
      cases hkept

/-- A declaration binds its name to what it declares, in a frame that is there. -/
theorem State.lookup_step_declared {decl : FunDecl} (hd : s.Declares frame name decl)
    (hframe : frame < s.store.frames.size) :
    (s.step mode).store.frames.lookup frame name = some (s.declared decl) := by
  apply State.lookup_of_declares hd
  obtain ⟨control, stack, registers, store, output⟩ := s
  obtain ⟨rfl, rfl, rfl⟩ := hd
  exact lookup_define_self hframe decl.name.lexeme _

/-- A declaration under the name adds its function to those collected. -/
theorem Store.collects_joined {bound : Option Value} {f : Closure} (id : Nat)
    (h : bound = none ∧ fs = [] ∨ ∃ v, bound = some v ∧ v.Collects name fs)
    (hf : f.decl.name.lexeme = name) :
    (Store.joined bound f id).Collects name (fs ++ [f]) := by
  refine ⟨?_, ?_, fun o ho => ?_⟩
  · rw [Store.closures_joined, Overloads.collect_concat]
    rcases h with ⟨rfl, rfl⟩ | ⟨v, rfl, hv⟩
    · rfl
    · rw [Option.map_some, Option.getD_some, hv.closures]
  · apply Store.wellFormed_joined
    intro v hbound
    rcases h with ⟨rfl, -⟩ | ⟨w, rfl, hw⟩
    · cases hbound
    · cases hbound
      exact hw.wellFormed
  · unfold Store.joined at ho
    dsimp only at ho
    split at ho
    · split_ifs at ho
      cases ho
      exact hf
    · cases ho
      exact hf
    · cases ho

/-- After any history the name is bound to what remains of the functions declared. -/
theorem Declared.collects (h : Declared mode frame name fs s) :
    frame < s.store.frames.size ∧
      (s.store.frames.lookup frame name = none ∧ fs = [] ∨
        ∃ v, s.store.frames.lookup frame name = some v ∧ v.Collects name fs) := by
  induction h with
  | first there free => exact ⟨there, Or.inl ⟨free, rfl⟩⟩
  | @declares fs s decl _ hd ih =>
    obtain ⟨there, hbound⟩ := ih
    refine ⟨there.trans_le (State.size_step mode s), Or.inr ?_⟩
    refine ⟨_, State.lookup_step_declared hd there, ?_⟩
    rw [← hd.2.1, ← hd.2.2] at hbound
    have hcollects : (s.declared decl).Collects decl.name.lexeme (fs ++ [s.created decl]) :=
      Store.collects_joined _ hbound rfl
    rwa [hd.2.2] at hcollects
  | @other fs s _ hd hp ih =>
    obtain ⟨there, hbound⟩ := ih
    rw [State.lookup_step_untouched hd hp]
    exact ⟨there.trans_le (State.size_step mode s), hbound⟩
  | next _ _ stmts locals ih => exact ih

/-- A state that goes on with the next statement binds nothing. -/
theorem Declared.goOn (h : Declared mode frame name fs s) (hcontrol : s.control = .done .next) :
    Declared mode frame name fs (s.step mode) := by
  have hready : s.ready? = none := by simp [State.ready?, hcontrol]
  refine h.other (fun decl hd => ?_) fun w hp => ?_
  · cases hcontrol.symm.trans hd.1
  · cases hp with
    | cls token methods lexeme control => cases hcontrol.symm.trans control
    | nil token lexeme control => cases hcontrol.symm.trans control
    | var token lexeme control => cases hcontrol.symm.trans control
    | assign id token lexeme control => cases hcontrol.symm.trans control
    | param c f ready => cases hready.symm.trans ready

/-- Function statements for a name, one after another, make a history. -/
theorem Declared.sequence {decls : List FunDecl} {rest : List Stmt} {ks : List Pending}
    (h : Declared mode frame name fs s) (hnames : ∀ d ∈ decls, d.name.lexeme = name)
    (hcontrol : s.control = .done .next)
    (hstack : s.stack = .sequence (decls.map .function ++ rest) :: ks)
    (hframe : s.registers.frame = frame) :
    ∃ gs t, Declared mode frame name (fs ++ gs) t ∧
      gs.map Closure.content = decls.map (·, frame, s.registers.locals) ∧
      t.control = .done .next ∧ t.stack = .sequence rest :: ks ∧ t.registers = s.registers := by
  induction decls generalizing fs s with
  | nil => exact ⟨[], s, by simpa using h, rfl, hcontrol, hstack, rfl⟩
  | cons d decls ih =>
    obtain ⟨control, stack, registers, store, output⟩ := s
    cases hcontrol
    cases hstack
    -- one step turns to the declaration, the next one runs it
    have hturned := h.goOn rfl
    have hdeclares : State.Declares (State.step mode ⟨.done .next, .sequence
        ((d :: decls).map .function ++ rest) :: ks, registers, store, output⟩) frame name d :=
      ⟨rfl, hframe, hnames d List.mem_cons_self⟩
    obtain ⟨gs, t, ht, hcontents, hdone, hleft, hregisters⟩ :=
      ih (hturned.declares hdeclares) (fun d' hd' => hnames d' (List.mem_cons_of_mem _ hd')) rfl rfl
        hframe
    refine ⟨_ :: gs, t, by simpa using ht, ?_, hdone, hleft, hregisters⟩
    rw [List.map_cons, List.map_cons, hcontents, ← hframe]
    rfl

variable (mode) in
/-- So does a program of function statements for a name, from the beginning of a session. -/
theorem Declared.program (locals : Locals) {decls : List FunDecl}
    (hnames : ∀ d ∈ decls, d.name.lexeme = name) :
    ∃ gs t, Declared mode globalFrame name gs t ∧
      gs.map Closure.content = decls.map (·, globalFrame, locals) := by
  let start := State.start Store.empty (decls.map .function ++ []) locals
  have hfirst : Declared mode globalFrame name [] start :=
    .first (show globalFrame < Store.empty.frames.size by decide) rfl
  obtain ⟨gs, t, ht, hcontents, -⟩ := hfirst.sequence hnames rfl rfl rfl
  exact ⟨gs, t, ht, hcontents⟩

end Histories

/-! ### What the name is bound to -/

namespace Value.Collects

variable {name : String} {fs : List Closure} {v : Value}

theorem mem_arities (h : v.Collects name fs) {k : Nat} :
    k ∈ v.closures.map Closure.arity ↔ k ∈ fs.map Closure.arity := by
  rw [h.closures]
  exact Overloads.mem_arities_collect

theorem closures_ne_nil (h : v.Collects name fs) (hne : fs ≠ []) : v.closures ≠ [] := by
  obtain ⟨f, hf⟩ := List.exists_mem_of_ne_nil fs hne
  intro hnil
  have hmem := h.mem_arities.2 (List.mem_map_of_mem hf)
  rw [hnil] at hmem
  cases hmem

/-- If all the functions take as many arguments, the name is bound to the last one. -/
theorem eq_function (h : v.Collects name fs) (hne : fs ≠ [])
    (hsame : ∀ f ∈ fs, ∀ g ∈ fs, f.arity = g.arity) : v = .function (fs.getLast hne) := by
  have harity : ∀ k ∈ v.closures.map Closure.arity, k = (fs.getLast hne).arity := by
    intro k hk
    obtain ⟨f, hf, rfl⟩ := List.mem_map.1 (h.mem_arities.1 hk)
    exact hsame f hf _ (List.getLast_mem hne)
  cases v with
  | datum d => exact absurd rfl (h.closures_ne_nil hne)
  | function f =>
    have hlast : [f].find? (·.arity = (fs.getLast hne).arity) = some (fs.getLast hne) := by
      have hclosures : [f] = Overloads.collect fs := h.closures
      have hreverse : fs.reverse = fs.getLast hne :: fs.dropLast.reverse := by
        rw [← List.reverse_concat, List.dropLast_append_getLast hne]
      rw [hclosures, Overloads.find?_collect, hreverse]
      exact List.find?_cons_of_pos (by simp)
    have hf := harity f.arity (by simp [Value.closures])
    rw [List.find?_cons_of_pos (by simpa using hf)] at hlast
    rw [Option.some.inj hlast]
  | overloads o =>
    -- a set has two functions or more, which take different numbers of arguments
    obtain ⟨htwo, hascending⟩ : o.WellFormed := h.wellFormed
    obtain ⟨id, oname, functions⟩ := o
    obtain ⟨f, g, gs, rfl⟩ : ∃ f g gs, functions = f :: g :: gs := by
      obtain _ | ⟨f, _ | ⟨g, gs⟩⟩ := functions
      · simp at htwo
      · simp at htwo
      · exact ⟨f, g, gs, rfl⟩
    have hlt : f.arity < g.arity := by
      simp only [Overloads.arities, List.map_cons, List.pairwise_cons] at hascending
      exact hascending.1 _ List.mem_cons_self
    have hf := harity f.arity (by simp [Value.closures])
    have hg := harity g.arity (by simp [Value.closures])
    omega

/-- If two of the functions take different numbers of arguments, the name is bound to a set. -/
theorem eq_overloads (h : v.Collects name fs)
    (hdiffer : ∃ f ∈ fs, ∃ g ∈ fs, f.arity ≠ g.arity) : ∃ o, v = .overloads o := by
  obtain ⟨f, hf, g, hg, hne⟩ := hdiffer
  have hfv := h.mem_arities.2 (List.mem_map_of_mem hf)
  have hgv := h.mem_arities.2 (List.mem_map_of_mem hg)
  cases v with
  | datum d => cases hfv
  | function f' =>
    have hf' : f.arity = f'.arity := by simpa [Value.closures] using hfv
    have hg' : g.arity = f'.arity := by simpa [Value.closures] using hgv
    exact absurd (hf'.trans hg'.symm) hne
  | overloads o => exact ⟨o, rfl⟩

end Value.Collects

/-! ### Calls -/

/-- Why a value refuses a number of arguments. -/
def Value.refusal (count : Nat) : Value → RuntimeCause
  | .datum _ => .notCallable
  | .function f => .wrongCount f.arity count
  | .overloads o => .noOverload o.name count

/-- A call of functions runs the one that takes as many arguments, or else raises an error. -/
theorem State.call_of_closures {v : Value} (h : v.closures ≠ []) (mode : Mode) (s : State)
    (paren : Option Token) (args : List Value) :
    s.call mode paren v args =
      match v.closures.find? (·.arity = args.length) with
      | some f => s.enter mode paren f args
      | none => s.fail paren (v.refusal args.length) := by
  cases v with
  | datum d => exact absurd rfl h
  | overloads o => rfl
  | function f =>
    by_cases harity : args.length = f.arity
    · simp [State.call, Value.closures, harity]
    · simp [State.call, Value.closures, Value.refusal, harity, Ne.symm harity]

/-- Functions of the same content run alike. -/
theorem State.enter_congr {f g : Closure} (h : f.content = g.content) (mode : Mode) (s : State)
    (paren : Option Token) (args : List Value) :
    s.enter mode paren f args = s.enter mode paren g args := by
  obtain ⟨i, decl, frame, locals⟩ := f
  obtain ⟨j, decl', frame', locals'⟩ := g
  obtain ⟨rfl, rfl, rfl⟩ : decl = decl' ∧ frame = frame' ∧ locals = locals' := by
    simpa [Closure.content] using h
  rfl

/-! ### Reordered declarations -/

/-- The second list comes from the first by exchanges of neighbours whose keys are different. -/
inductive Reordered {α : Type} (key : α → Nat) : List α → List α → Prop
  | refl (xs : List α) : Reordered key xs xs
  | swap (before : List α) {x y : α} (after : List α) (h : key x ≠ key y) :
      Reordered key (before ++ x :: y :: after) (before ++ y :: x :: after)
  | trans {xs ys zs : List α} (h : Reordered key xs ys) (h' : Reordered key ys zs) :
      Reordered key xs zs

namespace Reordered

variable {α : Type} {key : α → Nat} {xs ys : List α}

/-- The last element of each key stays. -/
theorem find?_reverse (h : Reordered key xs ys) (k : Nat) :
    xs.reverse.find? (key · = k) = ys.reverse.find? (key · = k) := by
  induction h with
  | refl => rfl
  | @swap before x y after h =>
    simp only [List.reverse_append, List.reverse_cons, List.find?_append, List.append_assoc]
    congr 1
    by_cases hx : key x = k
    · have hy : key y ≠ k := fun hy => h (hx.trans hy.symm)
      simp [hx, hy]
    · simp [hx]
  | trans _ _ ih ih' => exact ih.trans ih'

theorem cons (x : α) (h : Reordered key xs ys) : Reordered key (x :: xs) (x :: ys) := by
  induction h with
  | refl => exact .refl _
  | swap before after h => exact .swap (x :: before) after h
  | trans _ _ ih ih' => exact ih.trans ih'

theorem perm (h : Reordered key xs ys) : xs.Perm ys := by
  induction h with
  | refl => exact .refl _
  | swap before after h => exact (List.Perm.swap _ _ after).append_left before
  | trans _ _ ih ih' => exact ih.trans ih'

/-- Elements of pairwise different keys come into any order by such exchanges. -/
theorem of_perm (h : xs.Perm ys) (hkeys : xs.Pairwise (key · ≠ key ·)) : Reordered key xs ys := by
  induction h with
  | nil => exact .refl _
  | cons x _ ih => exact (ih (List.pairwise_cons.1 hkeys).2).cons x
  | swap x y l =>
    have hne : key y ≠ key x := (List.pairwise_cons.1 hkeys).1 x List.mem_cons_self
    exact .swap [] l hne
  | trans hperm _ ih ih' =>
    exact (ih hkeys).trans (ih' ((hperm.pairwise_iff fun h => h.symm).1 hkeys))

end Reordered

namespace Value.Collects

variable {name : String} {fs fs' : List Closure} {v v' : Value}

/-- Values that hold as many functions, for the same numbers of arguments and with the same content,
are printed alike, and they refuse arguments for the same reasons. -/
theorem render_eq (h : v.Collects name fs) (h' : v'.Collects name fs') (hnil : v.closures ≠ [])
    (harities : v.closures.map Closure.arity = v'.closures.map Closure.arity)
    (hfind : ∀ k, (v.closures.find? (·.arity = k)).map Closure.content =
      (v'.closures.find? (·.arity = k)).map Closure.content) :
    v'.render = v.render ∧ ∀ k, v'.refusal k = v.refusal k := by
  have hlength : v.closures.length = v'.closures.length := by
    simpa using congrArg List.length harities
  cases v with
  | datum d => exact absurd rfl hnil
  | function f =>
    cases v' with
    | datum d => cases hlength
    | function f' =>
      have harity : f'.arity = f.arity := (List.cons.inj harities).1.symm
      have hcontent := hfind f.arity
      simp only [Value.closures, List.find?_cons, harity, decide_true, Option.map_some,
        Option.some.injEq, Closure.content, Prod.mk.injEq] at hcontent
      exact ⟨by simp [Value.render, harity, hcontent.1], by simp [Value.refusal, harity]⟩
    | overloads o =>
      have htwo : 2 ≤ o.functions.length := h'.wellFormed.two_le
      have hone : 1 = o.functions.length := hlength
      omega
  | overloads o =>
    have htwo : 2 ≤ o.functions.length := h.wellFormed.two_le
    cases v' with
    | datum d =>
      have hzero : o.functions.length = 0 := hlength
      omega
    | function f' =>
      have hone : o.functions.length = 1 := hlength
      omega
    | overloads o' =>
      have hname : o'.name = o.name := (h'.named o' rfl).trans (h.named o rfl).symm
      have harities' : o'.arities = o.arities := harities.symm
      exact ⟨by simp [Value.render, hname, harities'], by simp [Value.refusal, hname]⟩

/-- Values whose last declarations for each number of arguments have the same content are printed
and called alike. -/
theorem alike (h : v.Collects name fs) (h' : v'.Collects name fs') (hne : fs ≠ [])
    (hlast : ∀ k, (fs.reverse.find? (·.arity = k)).map Closure.content =
      (fs'.reverse.find? (·.arity = k)).map Closure.content) :
    v'.render = v.render ∧ ∀ (mode : Mode) (t : State) (paren : Option Token) (args : List Value),
      t.call mode paren v' args = t.call mode paren v args := by
  have hfind : ∀ k, (v.closures.find? (·.arity = k)).map Closure.content =
      (v'.closures.find? (·.arity = k)).map Closure.content := by
    intro k
    rw [h.closures, h'.closures, Overloads.find?_collect, Overloads.find?_collect]
    exact hlast k
  have harities : v.closures.map Closure.arity = v'.closures.map Closure.arity := by
    have hsome : ∀ (gs : List Closure) (k : Nat), k ∈ gs.map Closure.arity ↔
        ((gs.find? (·.arity = k)).map Closure.content).isSome := by simp
    refine List.Pairwise.eq_of_mem_iff (r := (· < ·)) ?_ ?_ fun k => ?_
    · rw [h.closures]
      exact Overloads.pairwise_collect fs
    · rw [h'.closures]
      exact Overloads.pairwise_collect fs'
    · rw [hsome, hsome, hfind]
  have hnil := h.closures_ne_nil hne
  have hnil' : v'.closures ≠ [] := by
    intro hnil'
    rw [hnil', List.map_nil, List.map_eq_nil_iff] at harities
    exact hnil harities
  obtain ⟨hrender, hrefusal⟩ := h.render_eq h' hnil harities hfind
  refine ⟨hrender, fun mode t paren args => ?_⟩
  rw [State.call_of_closures hnil', State.call_of_closures hnil]
  have hfound := hfind args.length
  cases hv : v.closures.find? (·.arity = args.length) with
  | none =>
    rw [hv, Option.map_none, eq_comm, Option.map_eq_none_iff] at hfound
    rw [hfound, hrefusal]
  | some f =>
    rw [hv, Option.map_some, eq_comm, Option.map_eq_some_iff] at hfound
    obtain ⟨f', hf', hcontent⟩ := hfound
    rw [hf']
    exact State.enter_congr hcontent mode t paren args

end Value.Collects

/-- In a frame that did not bind a name, let function statements declare functions under it, at
least one, while nothing else binds it. Then the name is bound to the last function if all of them
take as many arguments, and else to a set. Whoever evaluates the name in the frame gets this value.
A call of the value enters the last function declared for the number of arguments, within the limit
on nested calls; if there is none, it raises an error and runs and changes nothing. The printed form
of a set lists the numbers of arguments once each, in ascending order. And a history in which
declarations of different numbers of arguments are exchanged leads to a value that is called and
printed alike. -/
theorem calls_last_declared {mode : Mode} {frame : FrameId} {name : String} {fs : List Closure}
    {s : State} (h : Declared mode frame name fs s) (hne : fs ≠ []) :
    ∃ v, s.store.frames.lookup frame name = some v ∧
      ((∀ f ∈ fs, ∀ g ∈ fs, f.arity = g.arity) → v = .function (fs.getLast hne)) ∧
      ((∃ f ∈ fs, ∃ g ∈ fs, f.arity ≠ g.arity) → ∃ o, v = .overloads o) ∧
      (∀ id token, s.control = .eval (.variable id token) → token.lexeme = name →
        s.holder? id token = some frame → s.step mode = s.goto (.value v)) ∧
      (∀ (mode' : Mode) (t : State) (c : Call), t.ready? = some c → c.callee = v →
        match fs.reverse.find? (·.arity = c.args.length) with
        | some f => t.step mode' = { t with stack := t.stack.tail }.enter mode' c.paren f c.args
        | none => ∃ cause, t.step mode' = { t with stack := t.stack.tail }.fail c.paren cause) ∧
      (∀ o, v = .overloads o → o.arities.Pairwise (· < ·) ∧
        (∀ k, k ∈ o.arities ↔ ∃ f ∈ fs, f.arity = k) ∧
        v.render = "<fn " ++ name ++ "/\x7b" ++
          String.intercalate "," (o.arities.map toString) ++ "\x7d>") ∧
      ∀ (mode' : Mode) (frame' : FrameId) (fs' : List Closure) (s' : State),
        Declared mode' frame' name fs' s' →
        Reordered (·.1.arity) (fs.map Closure.content) (fs'.map Closure.content) →
        ∃ v', s'.store.frames.lookup frame' name = some v' ∧ v'.render = v.render ∧
          ∀ (mode : Mode) (t : State) (paren : Option Token) (args : List Value),
            t.call mode paren v' args = t.call mode paren v args := by
  have hbound : ∀ {mode frame fs s}, Declared mode frame name fs s → fs ≠ [] →
      ∃ v, s.store.frames.lookup frame name = some v ∧ v.Collects name fs := by
    intro mode frame fs s h hne
    rcases h.collects.2 with ⟨-, hnil⟩ | hv
    · exact absurd hnil hne
    · exact hv
  obtain ⟨v, hv, hcollects⟩ := hbound h hne
  refine ⟨v, hv, hcollects.eq_function hne, hcollects.eq_overloads, ?_, ?_, ?_, ?_⟩
  · intro id token hcontrol hlexeme hholder
    have hvalue : s.valueOf? id token = some v := by
      rw [State.valueOf?, hholder, Option.bind_some, hlexeme, hv]
    simp only [State.step, hcontrol, State.evalStep, hvalue]
  · intro mode' t c hready hcallee
    rw [State.step_of_ready hready, hcallee,
      State.call_of_closures (hcollects.closures_ne_nil hne), hcollects.closures,
      Overloads.find?_collect]
    cases fs.reverse.find? (·.arity = c.args.length) with
    | some f => rfl
    | none => exact ⟨_, rfl⟩
  · rintro o rfl
    refine ⟨hcollects.wellFormed.ascending, fun k => ?_, ?_⟩
    · have hmem : k ∈ o.arities ↔ k ∈ fs.map Closure.arity := hcollects.mem_arities
      rw [hmem, List.mem_map]
    · rw [Value.render, hcollects.named o rfl]
  · intro mode' frame' fs' s' h' hreordered
    have hlast : ∀ k, (fs.reverse.find? (·.arity = k)).map Closure.content =
        (fs'.reverse.find? (·.arity = k)).map Closure.content := by
      intro k
      have hkeys := hreordered.find?_reverse k
      rw [← List.map_reverse, ← List.map_reverse, List.find?_map, List.find?_map] at hkeys
      exact hkeys
    have hne' : fs' ≠ [] := by
      rintro rfl
      exact hne (List.map_eq_nil_iff.1 hreordered.perm.eq_nil)
    obtain ⟨v', hv', hcollects'⟩ := hbound h' hne'
    exact ⟨v', hv', hcollects.alike hcollects' hne hlast⟩

/-- A unit declares `f` with one parameter and then without any. The two declarations, exchanged,
lead to a set that is printed and called alike. -/
theorem calls_last_declared_exchanged : ∃ (a b : FunDecl) (u : SourceUnit),
    SourceUnit.ofSource? "func f(a) \x7b\x7d func f() \x7b\x7d".toList = some u ∧
    u.program.stmts = [.function a, .function b] ∧
    ∃ fs s fs' s' v v', Declared {} globalFrame "f" fs s ∧ Declared {} globalFrame "f" fs' s' ∧
      fs.map Closure.decl = [a, b] ∧ fs'.map Closure.decl = [b, a] ∧
      s.store.frames.lookup globalFrame "f" = some v ∧
      s'.store.frames.lookup globalFrame "f" = some v' ∧
      (∃ o, v = .overloads o ∧ o.arities.Pairwise (· < ·) ∧
        ∀ k, k ∈ o.arities ↔ ∃ f ∈ fs, f.arity = k) ∧
      v'.render = v.render ∧
      ∀ t paren args, State.call {} t paren v' args = State.call {} t paren v args := by
  obtain ⟨a, b, u, hu, hstmts, ha, hb, hone, hzero⟩ : ∃ a b u,
      SourceUnit.ofSource? "func f(a) \x7b\x7d func f() \x7b\x7d".toList = some u ∧
      u.program.stmts = [.function a, .function b] ∧ a.name.lexeme = "f" ∧ b.name.lexeme = "f" ∧
      a.arity = 1 ∧ b.arity = 0 :=
    ⟨_, _, _, rfl, rfl, rfl, rfl, rfl, rfl⟩
  have hdecls : ∀ {fs : List Closure} {decls : List FunDecl},
      fs.map Closure.content = decls.map (·, globalFrame, u.locals) →
      fs.map Closure.decl = decls := by
    intro fs decls hcontents
    have hfst := congrArg (List.map Prod.fst) hcontents
    rwa [List.map_map, List.map_map, List.map_id''] at hfst
    exact fun _ => rfl
  have hab : ∀ d ∈ [a, b], d.name.lexeme = "f" := by simp [ha, hb]
  have hba : ∀ d ∈ [b, a], d.name.lexeme = "f" := by simp [ha, hb]
  obtain ⟨fs, s, hs, hfs⟩ := Declared.program {} u.locals hab
  obtain ⟨fs', s', hs', hfs'⟩ := Declared.program {} u.locals hba
  have hdiffer : ∃ f ∈ fs, ∃ g ∈ fs, f.arity ≠ g.arity := by
    obtain ⟨f, rest, rfl, rfl, hrest⟩ := List.map_eq_cons_iff.1 (hdecls hfs)
    obtain ⟨g, rest', rfl, rfl, -⟩ := List.map_eq_cons_iff.1 hrest
    refine ⟨f, List.mem_cons_self, g, by simp, ?_⟩
    rw [Closure.arity, Closure.arity, hone, hzero]
    decide
  have hne : fs ≠ [] := by
    obtain ⟨f, hf, -⟩ := hdiffer
    exact List.ne_nil_of_mem hf
  obtain ⟨v, hv, -, hset, -, -, hprinted, hreordered⟩ := calls_last_declared hs hne
  obtain ⟨o, rfl⟩ := hset hdiffer
  have hpairwise : [(a, globalFrame, u.locals), (b, globalFrame, u.locals)].Pairwise
      fun x y => x.1.arity ≠ y.1.arity := by simp [hone, hzero]
  obtain ⟨v', hv', hrender, hcall⟩ := hreordered {} globalFrame fs' s' hs' (by
    rw [hfs, hfs']
    exact .of_perm (.swap _ _ _) hpairwise)
  exact ⟨a, b, u, hu, hstmts, fs, s, fs', s', _, v', hs, hs', hdecls hfs, hdecls hfs', hv, hv',
    ⟨o, rfl, (hprinted o rfl).1, (hprinted o rfl).2.1⟩, hrender, hcall {}⟩

end Wandika
