import Wandika.Proofs.Machine.Preservation

/-!
# Local variables

* `State.AtNode`: the states at which a variable node is evaluated;
* `frames_follow_scopes`: the frames around a node are those of the scopes around it;
* `settled_variable_bound`: a local variable whose declaration has been run for certain is bound.
-/

namespace Wandika

/-- The state reads a variable node, begins an assignment to it, or assigns a value to it. -/
def State.AtNode (s : State) (id : Int) (name : Token) : Prop :=
  s.control = .eval (.variable id name) ∨ (∃ value, s.control = .eval (.assign id name value)) ∨
    ∃ v ks, s.control = .value v ∧ s.stack = .assign id name :: ks

section Nodes

variable {mode : Mode} {us : List SourceUnit} {s : State} {t : Trail} {id : Int} {name : Token}

/-- A node that is evaluated stands at the place of the current frame. -/
theorem Aligned.node (h : Aligned t s) (hn : s.AtNode id name) :
    ∃ layers, t.Holds s.store.frames t.unit layers s.registers.frame ∧
      t.unit.HasNode layers id name := by
  obtain ⟨gain, hctl, hstk⟩ := h.work
  rcases hn with hc | ⟨value, hc⟩ | ⟨v, ks, hc, hk⟩
  · rw [hc] at hctl
    obtain ⟨-, layers, hh, he⟩ := hctl
    exact ⟨layers, hh, he.node (by simp [Expr.mentions])⟩
  · rw [hc] at hctl
    obtain ⟨-, layers, hh, he⟩ := hctl
    exact ⟨layers, hh, he.node (by simp [Expr.mentions])⟩
  · rw [hk] at hstk
    rcases hstk.cons_inv with ⟨top, -⟩ | ⟨_, e, -⟩ | ⟨_, _, _, e, -⟩
    · exact top
    · cases e
    · cases e

/-- The entry of a node that stands in a unit. -/
theorem SourceUnit.distance?_of_mention {u : SourceUnit} {layers : List Layer} {scopes : List Scope}
    (hv : Visit.ofMention layers scopes (id, name) ∈ u.visits) :
    u.locals.distance? id = Resolver.depth? scopes name.lexeme :=
  SourceUnit.distance?_of_mem hv

/-- The units that a record speaks of. -/
structure Trail.Within (t : Trail) (us : List SourceUnit) : Prop where
  unit : t.unit ∈ us
  callers : ∀ u ∈ t.callers, u ∈ us
  declarer : ∀ {n u}, t.declarer? n = some u → u ∈ us

theorem Trail.Within.step (h : t.Within us) (mode : Mode) (s : State) :
    (t.step mode s).Within us := by
  have enter : ∀ f, (t.enter s.store.frames.size f).Within us := by
    intro f
    cases hd : t.declarer? f.id with
    | none => simpa [Trail.enter, hd] using h
    | some u =>
      rw [Trail.enter_eq hd]
      exact ⟨h.declarer hd, List.forall_mem_cons.2 ⟨h.unit, h.callers⟩, h.declarer⟩
  have leave : t.leave.Within us := by
    unfold Trail.leave
    split
    · exact h
    · rename_i u callers hc
      have hcallers := h.callers
      rw [hc, List.forall_mem_cons] at hcallers
      exact ⟨hcallers.1, hcallers.2, h.declarer⟩
  unfold Trail.step
  split
  · exact ⟨h.unit, h.callers, h.declarer⟩
  · refine ⟨h.unit, h.callers, fun {n u} hn => ?_⟩
    by_cases he : n = s.store.nextId
    · rw [he] at hn
      simp only [Trail.declare, Function.update_self, Option.some.injEq] at hn
      exact hn ▸ h.unit
    · simp only [Trail.declare, Function.update_of_ne he] at hn
      exact h.declarer hn
  · exact leave
  · exact leave
  · split
    · exact enter _
    · exact h

theorem Moment.within (h : Moment mode us s t) : t.Within us := by
  induction h with
  | first u => exact ⟨by simp, by simp, fun hn => by cases hn⟩
  | step _ ih => exact ih.step mode _
  | next _ _ u ih =>
    exact ⟨by simp, by simp, fun hn => List.mem_append_left _ (ih.declarer hn)⟩

/-- The names of a scope are declared by the area of its layer, and settled or doubtful there. -/
theorem Covered.layer {scopes : List Scope} {layers : List Layer} (h : Covered scopes layers)
    {i : Nat} {scope : Scope} {layer : Layer} (hs : scopes[i]? = some scope)
    (hl : layers[i]? = some layer) {x : String} (hx : x ∈ scope.names) :
    x ∈ layer.area.declared ∧ (x ∈ layer.settled ∨ x ∈ layer.doubtful) := by
  obtain ⟨hi, rfl⟩ := List.getElem?_eq_some_iff.1 hs
  obtain ⟨hi', rfl⟩ := List.getElem?_eq_some_iff.1 hl
  exact h.get hi hi' x hx

/-- When a variable node is evaluated, the current table is that of the unit it comes from. The
frames from the current one up to the global one were made by the blocks and functions around the
node, one for each scope that was open at its visit, in the same order, and each scope holds names
of its block or function only; a distance in the table leads to the frame of the scope that it was
read off. Frames bind only names that their areas declare. -/
theorem frames_follow_scopes (hm : Moment mode us s t) (hn : s.AtNode id name) :
    (t.unit ∈ us ∧ s.registers.locals = t.unit.locals) ∧
    (∃ v, t.unit.visit? id = some v ∧ v.name = name.lexeme ∧
      v.layers.length = v.scopes.length ∧
      (∀ (i : Nat) (scope : Scope) (layer : Layer), v.scopes[i]? = some scope →
        v.layers[i]? = some layer → scope.names ⊆ layer.area.declared) ∧
      (∀ i layer, v.layers[i]? = some layer →
        ∃ f, s.store.frames.ancestor? s.registers.frame i = some f ∧ f ≠ globalFrame ∧
          t.origin? f = some ⟨t.unit, layer.area⟩) ∧
      s.store.frames.ancestor? s.registers.frame v.layers.length = some globalFrame ∧
      ∀ d, s.registers.locals.distance? id = some d →
        Resolver.depth? v.scopes v.name = some d ∧
        ∃ layer f, v.layers[d]? = some layer ∧
          s.store.frames.ancestor? s.registers.frame d = some f ∧ f ≠ globalFrame ∧
          t.origin? f = some ⟨t.unit, layer.area⟩) ∧
    ∀ f x, f ≠ globalFrame → (s.store.frames.lookup f x).isSome →
      ∃ o, t.origin? f = some o ∧ x ∈ o.area.declared := by
  have ha := hm.aligned
  obtain ⟨layers, hh, scopes, hv⟩ := ha.node hn
  obtain ⟨hframes, hglobal⟩ := hh.ancestor?
  have hcov := SourceUnit.covered hv
  have hlen := hcov.length_eq
  have hframes : ∀ i layer, layers[i]? = some layer →
      ∃ f, s.store.frames.ancestor? s.registers.frame i = some f ∧ f ≠ globalFrame ∧
        t.origin? f = some ⟨t.unit, layer.area⟩ := by
    intro i layer hi
    obtain ⟨f, hf, hne, ho, -⟩ := hframes i layer hi
    exact ⟨f, hf, hne, ho⟩
  refine ⟨⟨hm.within.unit, ha.locals⟩,
    ⟨_, SourceUnit.visit?_of_mem hv, rfl, hlen.symm, ?_, hframes, hglobal, fun d hd => ?_⟩,
    fun f x => ha.store.declared⟩
  · intro i scope layer hs hl x hx
    exact (hcov.layer hs hl hx).1
  · rw [ha.locals, SourceUnit.distance?_of_mention hv] at hd
    have hlt : d < layers.length := by
      rw [← show scopes.length = layers.length from hlen]
      exact (List.findIdx?_eq_some_iff_findIdx_eq.1 hd).1
    obtain ⟨f, hf⟩ := hframes d _ (List.getElem?_eq_getElem hlt)
    exact ⟨hd, _, f, List.getElem?_eq_getElem hlt, hf⟩

/-- A function that an earlier unit declared runs in frames of its own unit. -/
theorem frames_follow_scopes_across_units :
    ∃ u₁ u₂ s t name,
      SourceUnit.ofSource? "func f(a) \x7b \x7b return a; \x7d \x7d".toList = some u₁ ∧
      SourceUnit.ofSource? "f(true);".toList = some u₂ ∧
      Moment {} [u₁, u₂] s t ∧ s.AtNode 0 name ∧ t.unit = u₁ ∧ s.registers.locals = u₁.locals ∧
      ∃ v layer f, u₁.visit? 0 = some v ∧ v.layers[1]? = some layer ∧
        s.store.frames.ancestor? s.registers.frame 1 = some f ∧ f ≠ globalFrame ∧
        t.origin? f = some ⟨u₁, layer.area⟩ := by
  obtain ⟨u₁, u₂, s, t, name, h₁, h₂, hm, hn, hu, hd⟩ : ∃ u₁ u₂ s t name,
      SourceUnit.ofSource? "func f(a) \x7b \x7b return a; \x7d \x7d".toList = some u₁ ∧
      SourceUnit.ofSource? "f(true);".toList = some u₂ ∧
      Moment {} [u₁, u₂] s t ∧ s.AtNode 0 name ∧ t.unit = u₁ ∧
      s.registers.locals.distance? 0 = some 1 :=
    ⟨_, _, _, _, _, rfl, rfl, (((Moment.first _).iterate 3).next rfl _).iterate 11, Or.inl rfl, rfl,
      rfl⟩
  obtain ⟨⟨-, hl⟩, ⟨v, hv, -, -, -, -, -, hdist⟩, -⟩ := frames_follow_scopes hm hn
  obtain ⟨-, layer, f, hlayer, hf⟩ := hdist 1 hd
  subst hu
  exact ⟨_, u₂, s, t, name, h₁, h₂, hm, hn, rfl, hl, v, layer, f, hv, hlayer, hf⟩

/-- A node whose variable is held by a frame is evaluated without an error. -/
theorem State.AtNode.step_ne_raise (hn : s.AtNode id name) {f : FrameId}
    (hf : s.holder? id name = some f) (e : RuntimeError) : (s.step mode).control ≠ .raise e := by
  obtain ⟨control, stack, registers, store, output⟩ := s
  rcases hn with hc | ⟨value, hc⟩ | ⟨v, ks, hc, hk⟩
  · dsimp only at hc
    subst hc
    obtain ⟨v, hv⟩ := Option.isSome_iff_exists.1 (isSome_of_holder? hf)
    have hvalue : State.valueOf? ⟨.eval (.variable id name), stack, registers, store, output⟩ id
        name = some v := by
      rw [State.valueOf?, hf]
      exact hv
    simp [State.step, State.evalStep, hvalue, State.goto]
  · dsimp only at hc
    subst hc
    simp [State.step, State.evalStep, State.push]
  · dsimp only at hc hk
    subst hc hk
    have hf : State.holder? ⟨.value v, ks, registers, store, output⟩ id name = some f := hf
    simp [State.step, State.valueStep, hf]

/-- A name that lies in a scope is settled or doubtful in the layer of the scope. -/
theorem Covered.of_depth? {scopes : List Scope} {layers : List Layer} (h : Covered scopes layers)
    {x : String} {d : Nat} (hd : Resolver.depth? scopes x = some d) {layer : Layer}
    (hl : layers[d]? = some layer) : x ∈ layer.settled ∨ x ∈ layer.doubtful := by
  obtain ⟨hlt, hx, -⟩ := List.findIdx?_eq_some_iff_getElem.1 hd
  exact (h.layer (List.getElem?_eq_getElem hlt) hl ((Bindings.has_eq_true _ x).1 hx)).2

/-- A local variable is bound when its node is evaluated, unless its name is doubtful in the layer
that its distance leads to and not settled there as well: reading and assigning it succeed. -/
theorem settled_variable_bound (hm : Moment mode us s t) (hn : s.AtNode id name) :
    ∃ v, t.unit.visit? id = some v ∧ v.name = name.lexeme ∧
      ∀ d layer, s.registers.locals.distance? id = some d → v.layers[d]? = some layer →
        (name.lexeme ∈ layer.settled ∨ name.lexeme ∉ layer.doubtful) →
        (s.store.frames.getAt? s.registers.frame d name.lexeme).isSome ∧
        (∀ w, (s.store.frames.assignAt? s.registers.frame d name.lexeme w).isSome) ∧
        ∀ e, (s.step mode).control ≠ .raise e := by
  have ha := hm.aligned
  obtain ⟨layers, hh, scopes, hv⟩ := ha.node hn
  refine ⟨_, SourceUnit.visit?_of_mem hv, rfl, fun d layer hd hl hs => ?_⟩
  have hdepth := hd
  rw [ha.locals, SourceUnit.distance?_of_mention hv] at hdepth
  have hs : name.lexeme ∈ layer.settled :=
    hs.elim (fun h => h) fun hno => ((SourceUnit.covered hv).of_depth? hdepth hl).resolve_right hno
  obtain ⟨f, hf, -, -, hb⟩ := hh.ancestor?.1 d layer hl
  have hat : s.store.frames.holderAt? s.registers.frame d name.lexeme = some f := by
    simp [Frames.holderAt?, hf, hb name.lexeme hs]
  have hholder : s.holder? id name = some f := by
    rw [State.holder?, hd]
    exact hat
  refine ⟨?_, fun w => ?_, hn.step_ne_raise hholder⟩
  · simpa [Frames.getAt?, hat] using hb name.lexeme hs
  · simp [Frames.assignAt?, hat]

theorem settled_variable_bound_in_block :
    ∃ u s t name, SourceUnit.ofSource? "\x7b var a = true; wandika a; \x7d".toList = some u ∧
      Moment {} [u] s t ∧ s.AtNode 0 name ∧ s.registers.locals.distance? 0 = some 0 ∧
      (s.store.frames.getAt? s.registers.frame 0 name.lexeme).isSome := by
  obtain ⟨u, s, t, name, h, hm, hn, hd, hu, v, layer, hv, hl, hx, hs⟩ : ∃ u s t name,
      SourceUnit.ofSource? "\x7b var a = true; wandika a; \x7d".toList = some u ∧
      Moment {} [u] s t ∧ s.AtNode 0 name ∧ s.registers.locals.distance? 0 = some 0 ∧ t.unit = u ∧
      ∃ v layer, u.visit? 0 = some v ∧ v.layers[0]? = some layer ∧ name.lexeme = "a" ∧
        layer.settled = ["a"] :=
    ⟨_, _, _, _, rfl, (Moment.first _).iterate 8, Or.inl rfl, rfl, rfl, _, _, rfl, rfl, rfl, rfl⟩
  obtain ⟨v', hv', -, hb⟩ := settled_variable_bound hm hn
  rw [hu] at hv'
  obtain rfl : v = v' := Option.some.inj (hv.symm.trans hv')
  have hs : name.lexeme ∈ layer.settled := by simp [hx, hs]
  exact ⟨u, s, t, name, h, hm, hn, hd, (hb 0 layer hd hl (Or.inl hs)).1⟩

/-- A variable that may be unbound: the function is declared under a condition that does not
hold. -/
theorem conditional_function_unbound :
    ∃ u s t name,
      SourceUnit.ofSource? "\x7b if (false) func f() \x7b\x7d wandika f; \x7d".toList = some u ∧
      Moment {} [u] s t ∧ s.AtNode 0 name ∧ s.registers.locals.distance? 0 = some 0 ∧
      (s.step {}).control = .raise ⟨some name, .undefinedVariable "f"⟩ :=
  ⟨_, _, _, _, rfl, (Moment.first _).iterate 8, Or.inl rfl, rfl, rfl⟩

end Nodes

end Wandika
