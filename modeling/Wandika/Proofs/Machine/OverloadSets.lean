import Wandika.Proofs.Machine.Stored

/-!
# Sets of overloads

* `Overloads.WellFormed`: a set holds two functions or more, one for each number of parameters;
* `Course.wellFormed`: so does every set, wherever a session keeps it;
* `Value.identity?`, `Course.unique`: functions and sets of one identity are the same throughout a
  session;
* `State.step_of_calls_lt`: a function is run on as many arguments as it has parameters;
* `overload_sets_sound`: the three together.
-/

namespace Wandika

/-! ### Well-formed sets -/

/-- The set holds two functions or more, in ascending order of their number of parameters. -/
structure Overloads.WellFormed (o : Overloads) : Prop where
  two_le : 2 ≤ o.functions.length
  ascending : o.arities.Pairwise (· < ·)

/-- A value is well formed if it is no set, or a well-formed one. -/
def Value.WellFormed : Value → Prop
  | .overloads o => o.WellFormed
  | .datum _ | .function _ => True

namespace Overloads

variable {f : Closure} {gs : List Closure}

theorem arity_insert {n : Nat} (h : n ∈ (insert f gs).map Closure.arity) :
    n = f.arity ∨ n ∈ gs.map Closure.arity := by
  obtain ⟨g, hg, rfl⟩ := List.mem_map.1 h
  rcases mem_insert hg with rfl | hg
  · exact Or.inl rfl
  · exact Or.inr (List.mem_map_of_mem hg)

theorem pairwise_insert (h : (gs.map Closure.arity).Pairwise (· < ·)) :
    ((insert f gs).map Closure.arity).Pairwise (· < ·) := by
  induction gs with
  | nil => simp [insert]
  | cons g gs ih =>
    rw [List.map_cons, List.pairwise_cons] at h
    obtain ⟨hg, hgs⟩ := h
    unfold insert
    split_ifs with hlt heq
    · rw [List.map_cons, List.map_cons, List.pairwise_cons, List.pairwise_cons]
      refine ⟨List.forall_mem_cons.2 ⟨hlt, fun n hn => ?_⟩, hg, hgs⟩
      exact hlt.trans (hg n hn)
    · rw [List.map_cons, List.pairwise_cons, heq]
      exact ⟨hg, hgs⟩
    · rw [List.map_cons, List.pairwise_cons]
      refine ⟨fun n hn => ?_, ih hgs⟩
      rcases arity_insert hn with rfl | hn
      · omega
      · exact hg n hn

theorem length_le_insert (f : Closure) (gs : List Closure) :
    gs.length ≤ (insert f gs).length := by
  induction gs with
  | nil => simp [insert]
  | cons g gs ih =>
    unfold insert
    split_ifs
    · simp
    · simp
    · simpa using ih

/-- The function under a number of parameters has that many. -/
theorem select?_eq_some {o : Overloads} {k : Nat} (h : o.select? k = some f) :
    f ∈ o.functions ∧ f.decl.params.length = k :=
  ⟨List.mem_of_find?_eq_some h, by
    have harity : f.arity = k := by simpa using List.find?_some h
    exact harity⟩

/-- Every function of a well-formed set is selected by its number of parameters. -/
theorem WellFormed.select? {o : Overloads} (h : o.WellFormed) (hf : f ∈ o.functions) :
    o.select? f.decl.params.length = some f := by
  have hsorted := h.ascending
  unfold arities at hsorted
  unfold Overloads.select?
  show o.functions.find? (·.arity = f.arity) = some f
  generalize o.functions = gs at hf hsorted
  induction gs with
  | nil => cases hf
  | cons g gs ih =>
    rw [List.map_cons, List.pairwise_cons] at hsorted
    rcases List.mem_cons.1 hf with rfl | hf
    · simp
    · have hlt := hsorted.1 f.arity (List.mem_map_of_mem hf)
      rw [List.find?_cons_of_neg (by simp; omega)]
      exact ih hf hsorted.2

end Overloads

/-- A declaration joins its function with what was bound into a well-formed value. -/
theorem Store.wellFormed_joined {bound : Option Value} (h : ∀ v, bound = some v → v.WellFormed)
    (f : Closure) (id : Nat) : (Store.joined bound f id).WellFormed := by
  unfold Store.joined
  dsimp only
  split
  · rename_i g
    split_ifs with harity
    · trivial
    · refine ⟨?_, Overloads.pairwise_insert (by simp)⟩
      -- the functions take different numbers of arguments, so both are kept
      rcases Nat.lt_or_gt_of_ne harity with hlt | hgt
      · simp [Overloads.insert, Nat.not_lt.2 hlt.le, Ne.symm harity]
      · simp [Overloads.insert, hgt]
  · rename_i o
    have ho : o.WellFormed := h _ rfl
    refine ⟨ho.two_le.trans (Overloads.length_le_insert f o.functions), ?_⟩
    exact Overloads.pairwise_insert ho.ascending
  · trivial

/-- Every value of a session is well formed. -/
theorem Course.wellFormed {mode : Mode} {past : List State} (h : Course mode past) :
    ∀ s ∈ past, ∀ v, s.Stored v → v.WellFormed := by
  induction h with
  | first u =>
    exact List.forall_mem_singleton.2 fun v hv => absurd hv State.not_stored_first
  | @step s past _ ih =>
    refine List.forall_mem_cons.2 ⟨fun v hv => ?_, ih⟩
    have hs := ih s List.mem_cons_self
    rcases State.stored_step hv with hv | ⟨d, rfl⟩ | ⟨decl, -, rfl⟩
    · exact hs v hv
    · trivial
    · exact Store.wellFormed_joined (fun w hw => hs w (.bound _ _ hw)) _ _
  | @next s past _ _ u ih =>
    refine List.forall_mem_cons.2 ⟨fun v hv => ?_, ih⟩
    exact ih s List.mem_cons_self v (State.stored_next hv)

/-! ### Identities -/

/-- The number by which a function or a set of overloads is told from all others. -/
def Value.identity? : Value → Option Nat
  | .datum _ => none
  | .function f => some f.id
  | .overloads o => some o.id

/-- A declaration binds its name to something new. -/
theorem State.identity_declared (s : State) (decl : FunDecl) :
    ∃ i, (s.declared decl).identity? = some i ∧ s.store.nextId ≤ i ∧ i < s.store.nextId + 2 := by
  unfold State.declared State.created Store.joined
  dsimp only
  split
  · split_ifs
    · exact ⟨_, rfl, by simp, by simp⟩
    · exact ⟨_, rfl, by simp, by simp⟩
  · exact ⟨_, rfl, by simp, by simp⟩
  · exact ⟨_, rfl, by simp, by simp⟩

/-- The value was kept by one of the states. -/
def Kept (past : List State) (v : Value) : Prop := ∃ s ∈ past, s.Stored v

/-- The identities lie below the next free one, and no two values share one. -/
structure Unique (kept : Value → Prop) (next : Nat) : Prop where
  below : ∀ v, kept v → ∀ i, v.identity? = some i → i < next
  agree : ∀ v v', kept v → kept v' → ∀ i, v.identity? = some i → v'.identity? = some i → v = v'

/-- Further values have no identity, or are one value whose identity was free. -/
theorem Unique.extend {kept kept' : Value → Prop} {next next' : Nat} (h : Unique kept next)
    (hle : next ≤ next') (w : Value)
    (hnew : ∀ v, kept' v → kept v ∨ ∀ i, v.identity? = some i → v = w ∧ next ≤ i ∧ i < next') :
    Unique kept' next' where
  below v hv i hi := by
    rcases hnew v hv with hold | hfree
    · exact (h.below v hold i hi).trans_le hle
    · exact (hfree i hi).2.2
  agree v v' hv hv' i hi hi' := by
    rcases hnew v hv with hold | hfree <;> rcases hnew v' hv' with hold' | hfree'
    · exact h.agree v v' hold hold' i hi hi'
    · have := h.below v hold i hi
      have := (hfree' i hi').2.1
      omega
    · have := h.below v' hold' i hi'
      have := (hfree i hi).2.1
      omega
    · exact (hfree i hi).1.trans (hfree' i hi').1.symm

/-- No two functions or sets that a session keeps at any time share an identity. -/
theorem Course.unique {mode : Mode} {past : List State} (h : Course mode past) :
    ∀ s ∈ past.head?, Unique (Kept past) s.store.nextId := by
  induction h with
  | first u =>
    rintro s -
    have hnone : ∀ v, ¬ Kept [State.start Store.empty u.program.stmts u.locals] v := by
      rintro v ⟨s, hs, hv⟩
      cases List.mem_singleton.1 hs
      exact State.not_stored_first hv
    exact ⟨fun v hv => absurd hv (hnone v), fun v v' hv => absurd hv (hnone v)⟩
  | @step s past _ ih =>
    rintro _ ⟨⟩
    have hs := ih s rfl
    have hold : ∀ {v}, s.Stored v → Kept (s :: past) v := fun hv => ⟨s, List.mem_cons_self, hv⟩
    -- only a function statement makes something that has an identity
    obtain ⟨made, hmade⟩ : ∃ made, ∀ decl, s.control = .exec (.function decl) →
        s.declared decl = made := by
      by_cases hdeclares : ∃ decl, s.control = .exec (.function decl)
      · obtain ⟨decl, hdecl⟩ := hdeclares
        refine ⟨s.declared decl, fun decl' hdecl' => ?_⟩
        cases hdecl.symm.trans hdecl'
        rfl
      · exact ⟨.nil, fun decl hdecl => absurd ⟨decl, hdecl⟩ hdeclares⟩
    refine hs.extend (State.nextId_step mode s) made ?_
    rintro v ⟨s', hs', hv⟩
    rcases List.mem_cons.1 hs' with rfl | hs'
    · rcases State.stored_step hv with hv | ⟨d, rfl⟩ | ⟨decl, hcontrol, rfl⟩
      · exact Or.inl (hold hv)
      · exact Or.inr fun i hi => by cases hi
      · refine Or.inr fun i hi => ?_
        obtain ⟨j, hj, hle, hlt⟩ := s.identity_declared decl
        cases hj.symm.trans hi
        refine ⟨hmade decl hcontrol, hle, ?_⟩
        simpa [State.step, hcontrol, State.execStep, Store.declareFunction, Store.define] using hlt
    · exact Or.inl ⟨s', hs', hv⟩
  | @next s past _ _ u ih =>
    rintro _ ⟨⟩
    refine (ih s rfl).extend (Nat.le_refl _) .nil ?_
    rintro v ⟨s', hs', hv⟩
    rcases List.mem_cons.1 hs' with rfl | hs'
    · exact Or.inl ⟨s, List.mem_cons_self, State.stored_next hv⟩
    · exact Or.inl ⟨s', hs', hv⟩

/-! ### Function statements and calls -/

namespace State

variable {mode : Mode} {s : State}

/-- A function statement changes the binding of its name in the current frame and no other place
in which a value is kept. -/
theorem places_declared {decl : FunDecl} (h : s.control = .exec (.function decl)) :
    (∀ frame name, ¬ (frame = s.registers.frame ∧ name = decl.name.lexeme) →
      (s.step mode).store.frames.lookup frame name = s.store.frames.lookup frame name) ∧
    (∀ o name, (s.step mode).store.field? o name = s.store.field? o name) ∧
    (s.step mode).stack = s.stack := by
  obtain ⟨control, stack, registers, store, output⟩ := s
  cases h
  refine ⟨fun frame name hplace => ?_, fun o name => rfl, rfl⟩
  exact Frames.lookup_define_of_ne hplace

/-- A step that begins to run a function runs it on as many arguments as it has parameters. -/
theorem step_of_calls_lt (h : s.calls < (s.step mode).calls) :
    ∃ c f, s.ready? = some c ∧ f ∈ c.callee.closures ∧
      c.args.length = f.decl.params.length ∧
      (s.step mode).stack = .sequence f.decl.body :: .leaveCall s.registers :: s.stack.tail ∧
      (s.step mode).registers.frame = s.store.frames.size ∧
      (s.step mode).store =
        s.store.pushFrame ⟨some f.frame, bindParams f.decl.params c.args⟩ := by
  obtain ⟨c, hc⟩ := ready_of_calls_lt h
  rw [step_of_ready hc] at h ⊢
  rw [← calls_of_ready hc] at h
  have hcall : Calls mode { s with stack := s.stack.tail } c.callee c.args
    (State.call mode { s with stack := s.stack.tail } c.paren c.callee c.args) := calls_call
  generalize State.call mode { s with stack := s.stack.tail } c.paren c.callee c.args = t
    at hcall h ⊢
  cases hcall with
  | @runs f mem arity target => exact ⟨c, f, hc, mem, arity, rfl, rfl, rfl⟩
  | makes cls => exact absurd h (Nat.lt_irrefl _)
  | fails e => exact absurd h (Nat.lt_irrefl _)

end State

/-- Throughout a session, wherever a set of overloads is kept, it holds two functions or more, and
the one under a number of parameters has that many. Functions and sets never change: two that are
kept at any times and have one identity are the same, and a function statement replaces the binding
of its name in the current frame only. And a function begins to run on exactly as many arguments as
it has parameters, so that every parameter finds its argument and is bound in the new frame. -/
theorem overload_sets_sound {mode : Mode} {past : List State} (h : Course mode past) :
    (∀ s ∈ past, ∀ o, s.Stored (.overloads o) →
      2 ≤ o.functions.length ∧
      (∀ k f, o.select? k = some f → f ∈ o.functions ∧ f.decl.params.length = k) ∧
      ∀ f ∈ o.functions, o.select? f.decl.params.length = some f) ∧
    (∀ s ∈ past, ∀ s' ∈ past, ∀ v v', s.Stored v → s'.Stored v' →
      ∀ i, v.identity? = some i → v'.identity? = some i → v = v') ∧
    (∀ s ∈ past, ∀ decl, s.control = .exec (.function decl) →
      (∀ frame name, ¬ (frame = s.registers.frame ∧ name = decl.name.lexeme) →
        (s.step mode).store.frames.lookup frame name = s.store.frames.lookup frame name) ∧
      (∀ o name, (s.step mode).store.field? o name = s.store.field? o name) ∧
      (s.step mode).stack = s.stack) ∧
    ∀ s ∈ past, s.calls < (s.step mode).calls →
      ∃ c f, s.ready? = some c ∧ f ∈ c.callee.closures ∧
        (s.step mode).stack = .sequence f.decl.body :: .leaveCall s.registers :: s.stack.tail ∧
        c.args.length = f.decl.params.length ∧
        (∀ i < f.decl.params.length, (c.args[i]?).isSome) ∧
        ∀ x, ((s.step mode).store.frames.lookup (s.step mode).registers.frame x).isSome ↔
          x ∈ f.decl.params.map Token.lexeme := by
  refine ⟨fun s hs o ho => ?_, fun s hs s' hs' v v' hv hv' => ?_, fun s _ decl => ?_,
    fun s _ hcalls => ?_⟩
  · have hwf : o.WellFormed := h.wellFormed s hs _ ho
    exact ⟨hwf.two_le, fun k f => Overloads.select?_eq_some, fun f => hwf.select?⟩
  · obtain ⟨s₀, hs₀⟩ := Option.isSome_iff_exists.1 (List.isSome_head?.2 (List.ne_nil_of_mem hs))
    exact (h.unique s₀ hs₀).agree v v' ⟨s, hs, hv⟩ ⟨s', hs', hv'⟩
  · exact State.places_declared
  · obtain ⟨c, f, hready, hmem, hlength, hstack, hframe, hstore⟩ := State.step_of_calls_lt hcalls
    refine ⟨c, f, hready, hmem, hstack, hlength, fun i hi => by simp [hlength, hi], fun x => ?_⟩
    rw [hframe, hstore]
    have hlookup : (s.store.pushFrame ⟨some f.frame,
        State.bindParams f.decl.params c.args⟩).frames.lookup s.store.frames.size x =
      (State.bindParams f.decl.params c.args).get? x := Frames.lookup_push_size x
    rw [hlookup]
    exact isSome_bindParams f.decl.params hlength x

/-- The second declaration of `f` leaves its alias `g` alone, and the call finds the function with
one parameter in the set. -/
theorem overload_sets_sound_alias : ∃ (s : State) (past : List State) (o : Overloads) (g : Closure),
    State.after? {} "func f() \x7b\x7d var g = f; func f(a) \x7b\x7d f(g);".toList 14 = some s ∧
    Course {} (s :: past) ∧
    s.store.frames.lookup globalFrame "f" = some (.overloads o) ∧ o.arities = [0, 1] ∧
    s.store.frames.lookup globalFrame "g" = some (.function g) ∧ g.arity = 0 ∧
    2 ≤ o.functions.length ∧
    ∃ (c : Call) (f : Closure), s.ready? = some c ∧ f ∈ c.callee.closures ∧
      c.args.length = f.decl.params.length := by
  have hcheck : ((State.after? {}
      "func f() \x7b\x7d var g = f; func f(a) \x7b\x7d f(g);".toList 14).any fun s =>
        (s.store.frames.lookup globalFrame "f").any fun v =>
          (s.store.frames.lookup globalFrame "g").any fun w =>
            decide (v.closures.map Closure.arity = [0, 1] ∧ w.closures.map Closure.arity = [0] ∧
              s.calls < (s.step {}).calls)) = true := by decide +kernel
  simp only [Option.any_eq_true, decide_eq_true_eq] at hcheck
  obtain ⟨s, hs, v, hf, w, hg, harities, harity, hcalls⟩ := hcheck
  obtain ⟨past, hpast⟩ := Course.of_after? hs
  obtain ⟨hsets, -, -, hentries⟩ := overload_sets_sound hpast
  obtain ⟨c, f, hready, hmem, -, hlength, -⟩ := hentries s List.mem_cons_self hcalls
  obtain ⟨o, rfl⟩ : ∃ o, v = .overloads o := by
    cases v with
    | datum d => simp [Value.closures] at harities
    | function f => simp [Value.closures] at harities
    | overloads o => exact ⟨o, rfl⟩
  obtain ⟨g, rfl⟩ : ∃ g, w = .function g := by
    cases w with
    | datum d => simp [Value.closures] at harity
    | function g => exact ⟨g, rfl⟩
    | overloads o' =>
      -- a set has two functions or more
      have htwo := (hsets s List.mem_cons_self o' (.bound _ _ hg)).1
      have hone : o'.functions.length = 1 := by
        simpa [Value.closures] using congrArg List.length harity
      omega
  exact ⟨s, past, o, g, hs, hpast, hf, harities, hg, by simpa [Value.closures] using harity,
    (hsets s List.mem_cons_self o (.bound _ _ hf)).1, c, f, hready, hmem, hlength⟩

end Wandika
