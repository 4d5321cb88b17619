import Wandika.Proofs.Machine.Stored

/-!
# Where the functions of a set come from

A function statement joins its function with whatever functions its name is bound to in the current
frame, by whatever code they came there.

* `Brought`: a function was made under a name in a frame or put there, and nothing but function
  statements has bound the name since;
* `Course.brought`: so it was with every function that a name is bound to;
* `overload_set_members`: so it is with the functions of a set;
* `overload_set_adopts_alias`: a set may hold functions of other names.
-/

namespace Wandika

/-- The function was made by a function statement for the name in the frame, or it was put there by
other code: by a variable declaration, by an assignment, or as an argument. Since then nothing but
function statements has bound the name in the frame. The states are given with the latest first. -/
def Brought (mode : Mode) (past : List State) (frame : FrameId) (name : String) (g : Closure) :
    Prop :=
  ∃ recent s earlier, past = recent ++ s :: earlier ∧
    (∀ s' ∈ recent, ∀ w, ¬ s'.Puts mode frame name w) ∧
    ((∃ decl, s.Declares frame name decl ∧ g = s.created decl) ∨
      ∃ w, s.Puts mode frame name w ∧ g ∈ w.closures)

section Brought

variable {mode : Mode} {s : State} {past : List State} {frame : FrameId} {name : String}
  {g : Closure} {v w : Value}

theorem Brought.cons (h : Brought mode past frame name g)
    (hs : ∀ w, ¬ s.Puts mode frame name w) : Brought mode (s :: past) frame name g := by
  obtain ⟨recent, s₀, earlier, rfl, hrecent, hs₀⟩ := h
  exact ⟨s :: recent, s₀, earlier, rfl, List.forall_mem_cons.2 ⟨hs, hrecent⟩, hs₀⟩

/-- A function statement puts nothing into a frame in another way. -/
theorem State.Declares.not_puts {decl : FunDecl} {f : FrameId} {x : String}
    (h : s.Declares f x decl) : ¬ s.Puts mode frame name w := by
  intro hp
  have hready : s.ready? = none := by simp [State.ready?, h.1]
  cases hp with
  | cls token methods lexeme control => cases h.1.symm.trans control
  | nil token lexeme control => cases h.1.symm.trans control
  | var token lexeme control => cases h.1.symm.trans control
  | assign id token lexeme control => cases h.1.symm.trans control
  | param c f ready => cases hready.symm.trans ready

/-- A halted state puts nothing into a frame. -/
theorem State.not_puts_of_halted (h : s.halted = true) : ¬ s.Puts mode frame name w := by
  intro hp
  obtain ⟨control, stack, registers, store, output⟩ := s
  have hstack : stack = [] := by
    cases stack with
    | nil => rfl
    | cons k ks => cases control <;> cases h
  subst hstack
  have hready : State.ready? ⟨control, [], registers, store, output⟩ = none := by
    cases control <;> rfl
  cases hp with
  | cls token methods lexeme control =>
    subst control
    cases h
  | nil token lexeme control =>
    subst control
    cases h
  | var token lexeme control waiting => cases waiting
  | assign id token lexeme control waiting => cases waiting
  | param c f ready => cases hready.symm.trans ready

/-- Every function that a name is bound to in a frame was brought there. -/
theorem Course.brought (h : Course mode past) : ∀ s rest, past = s :: rest →
    ∀ v, s.store.frames.lookup frame name = some v →
      ∀ g ∈ v.closures, Brought mode rest frame name g := by
  induction h with
  | first u =>
    rintro _ _ ⟨⟩ v hv
    exact absurd (State.Stored.bound _ _ hv) State.not_stored_first
  | @step s past _ ih =>
    rintro _ _ ⟨⟩ v hv g hg
    rcases State.lookup_step_cases hv with hput | ⟨decl, hdecl, rfl⟩ | ⟨hkept, hnone⟩
    · exact ⟨[], s, past, rfl, by simp, Or.inr ⟨v, hput, hg⟩⟩
    · -- a function of a set is the new one or one that the name was bound to before
      rcases Store.mem_closures_joined hg with rfl | ⟨v', hv', hg'⟩
      · exact ⟨[], s, past, rfl, by simp, Or.inl ⟨decl, hdecl, rfl⟩⟩
      · rw [hdecl.2.1, hdecl.2.2] at hv'
        exact (ih s past rfl v' hv' g hg').cons fun w => hdecl.not_puts
    · exact (ih s past rfl v hkept g hg).cons hnone
  | @next s past _ hs u ih =>
    rintro _ _ ⟨⟩ v hv g hg
    exact (ih s past rfl v hv g hg).cons fun w => State.not_puts_of_halted hs

end Brought

/-- Whenever a function statement binds its name to a set of overloads, the set holds the function
that the statement has made, and every other function of it was made by a function statement for
the name in the same frame or was put into the binding by other code, since when nothing but
function statements has bound the name in the frame. -/
theorem overload_set_members {mode : Mode} {s : State} {past : List State}
    (h : Course mode (s :: past)) {decl : FunDecl} (hs : s.control = .exec (.function decl))
    {o : Overloads}
    (ho : (s.step mode).store.frames.lookup s.registers.frame decl.name.lexeme =
      some (.overloads o)) :
    ∀ g ∈ o.functions, g = s.created decl ∨
      Brought mode past s.registers.frame decl.name.lexeme g := by
  intro g hg
  have hdecl : s.Declares s.registers.frame decl.name.lexeme decl := ⟨hs, rfl, rfl⟩
  have hbound := State.lookup_of_declares hdecl (by rw [ho]; rfl)
  rw [ho] at hbound
  have hmem : g ∈ (s.declared decl).closures := by
    rw [← Option.some.inj hbound]
    exact hg
  rcases Store.mem_closures_joined hmem with rfl | ⟨v, hv, hgv⟩
  · exact Or.inl rfl
  · exact Or.inr (h.brought s past rfl v hv g hgv)

/-- A function is made under the name `f`, and a variable `g` is given it. Then the function
statement for `g` joins its own function with it. -/
theorem alias_joined : ∃ (s : State) (past : List State) (decl : FunDecl) (o : Overloads),
    State.after? {} "func f(a) \x7b\x7d var g = f; func g(a, b) \x7b\x7d".toList 7 = some s ∧
    Course {} (s :: past) ∧ s.control = .exec (.function decl) ∧
    (s.step {}).store.frames.lookup s.registers.frame decl.name.lexeme = some (.overloads o) ∧
    ∃ g ∈ o.functions, g.decl.name.lexeme ≠ decl.name.lexeme := by
  obtain ⟨s, decl, o, hs, hcontrol, ho, hg⟩ : ∃ s decl o,
      State.after? {} "func f(a) \x7b\x7d var g = f; func g(a, b) \x7b\x7d".toList 7 = some s ∧
      s.control = .exec (.function decl) ∧
      (s.step {}).store.frames.lookup s.registers.frame decl.name.lexeme = some (.overloads o) ∧
      ∃ g ∈ o.functions, g.decl.name.lexeme ≠ decl.name.lexeme :=
    ⟨_, _, _, rfl, rfl, rfl, by decide +kernel⟩
  obtain ⟨past, hpast⟩ := Course.of_after? hs
  exact ⟨s, past, decl, o, hs, hpast, hcontrol, ho, hg⟩

/-- The function of `f` was brought to `g` by the variable declaration. -/
theorem overload_set_members_alias :
    ∃ (s : State) (past : List State) (decl : FunDecl) (o : Overloads) (g : Closure),
      Course {} (s :: past) ∧ s.control = .exec (.function decl) ∧
      (s.step {}).store.frames.lookup s.registers.frame decl.name.lexeme = some (.overloads o) ∧
      g ∈ o.functions ∧ g.decl.name.lexeme ≠ decl.name.lexeme ∧
      Brought {} past s.registers.frame decl.name.lexeme g := by
  obtain ⟨s, past, decl, o, -, hpast, hcontrol, ho, g, hg, hname⟩ := alias_joined
  refine ⟨s, past, decl, o, g, hpast, hcontrol, ho, hg, hname, ?_⟩
  rcases overload_set_members hpast hcontrol ho g hg with rfl | hbrought
  · exact absurd rfl hname
  · exact hbrought

/-- Not every function of a set was made by a function statement for its name. -/
theorem overload_set_adopts_alias :
    ¬ ∀ (mode : Mode) (s : State) (past : List State) (decl : FunDecl) (o : Overloads),
      Course mode (s :: past) → s.control = .exec (.function decl) →
      (s.step mode).store.frames.lookup s.registers.frame decl.name.lexeme =
        some (.overloads o) →
      ∀ g ∈ o.functions, ∃ s' ∈ s :: past, ∃ decl',
        s'.Declares s.registers.frame decl.name.lexeme decl' ∧ g = s'.created decl' := by
  intro hall
  obtain ⟨s, past, decl, o, -, hpast, hcontrol, ho, g, hg, hname⟩ := alias_joined
  obtain ⟨s', -, decl', hdecl, rfl⟩ := hall {} s past decl o hpast hcontrol ho g hg
  exact hname hdecl.2.2

end Wandika
