import Wandika.Proofs.Tree.Shape

/-!
# What running a parser ensures

* `Parser.Ensures`: an action succeeds as a postcondition says, or fails in a permitted way, with
  one rule for each way to put actions together and one for each action on single tokens;
* `Cursor.Reads`: the signs and the node numbers between two cursors;
* `Failure.Within`: the failures of a parser whose bound on the depth of rules was large enough.
-/

namespace Wandika

namespace Parser

variable {α β : Type}

/-- The action succeeds at the cursor as `post` says, or fails as `may` says. -/
def Ensures (act : Parser α) (c : Cursor) (post : α → Cursor → Prop) (may : Failure → Prop) :
    Prop :=
  match act c with
  | .ok a c' => post a c'
  | .error e _ => may e

section Rules

variable {c : Cursor} {post : α → Cursor → Prop} {may : Failure → Prop}

theorem Ensures.mono {act : Parser α} {post' : α → Cursor → Prop} {may' : Failure → Prop}
    (h : Ensures act c post may) (hp : ∀ a c', post a c' → post' a c')
    (hm : ∀ e, may e → may' e) : Ensures act c post' may' := by
  unfold Ensures at *
  split at h
  · exact hp _ _ h
  · exact hm _ h

theorem Ensures.bind {act : Parser β} {next : β → Parser α} {mid : β → Cursor → Prop}
    {may' : Failure → Prop} (h : Ensures act c mid may') (hm : ∀ e, may' e → may e)
    (hn : ∀ b c₁, mid b c₁ → Ensures (next b) c₁ post may) :
    Ensures (act >>= next) c post may := by
  unfold Ensures at h
  show match EStateM.bind act next c with | .ok a c' => post a c' | .error e _ => may e
  unfold EStateM.bind
  split at h
  · rename_i b c₁ e
    rw [e]
    exact hn b c₁ h
  · rename_i e c₁ e'
    rw [e']
    exact hm e h

theorem Ensures.pure {a : α} (h : post a c) : Ensures (pure a) c post may := h

theorem Ensures.pure_bind {b : β} {next : β → Parser α} (h : Ensures (next b) c post may) :
    Ensures (Pure.pure b >>= next) c post may := h

theorem Ensures.get_bind {next : Cursor → Parser α} (h : Ensures (next c) c post may) :
    Ensures (get >>= next) c post may := h

theorem Ensures.throw {e : Failure} (h : may e) : Ensures (throw e : Parser α) c post may := h

theorem Ensures.exhausted (h : may .exhausted) : Ensures (exhausted : Parser α) c post may := h

theorem Ensures.reject {cause : ParseCause} (h : may (.rejected ⟨c.peek, cause⟩)) :
    Ensures (reject cause : Parser α) c post may := h

end Rules

end Parser

/-! ### Single tokens -/

namespace Cursor

/-- The token was the next one, and it was no end mark. -/
structure Takes (c : Cursor) (t : Token) (c' : Cursor) : Prop where
  rest : c.rest = t :: c'.rest
  kind : t.kind ≠ .eof
  nextId : c'.nextId = c.nextId

theorem sees_eq_true {c : Cursor} {k : Kind} (h : c.sees k = true) :
    c.Takes c.peek c.advance ∧ c.peek.kind = k := by
  simp only [sees, Bool.and_eq_true, Bool.not_eq_true', decide_eq_true_eq] at h
  obtain ⟨ha, hk⟩ := h
  have he : c.peek.kind ≠ .eof := by simpa [atEnd] using ha
  refine ⟨⟨?_, he, by simp [advance, ha]⟩, hk⟩
  cases hr : c.rest with
  | nil => simp [peek, hr, Token.endMark] at he
  | cons t ts => simp [peek, advance, ha, hr]

theorem Takes.sees {c c' : Cursor} {t : Token} (h : c.Takes t c') (k : Kind) :
    c.sees k = decide (t.kind = k) := by
  have hp : c.peek = t := by simp [peek, h.rest]
  simp [Cursor.sees, atEnd, hp, h.kind]

end Cursor

namespace Parser

variable {α : Type} {c : Cursor} {post : α → Cursor → Prop} {may : Failure → Prop}

theorem Ensures.sees {kind : Kind} {next : Bool → Parser α}
    (h : Ensures (next (c.sees kind)) c post may) : Ensures (sees kind >>= next) c post may := h

theorem Ensures.atEnd {next : Bool → Parser α} (h : Ensures (next c.atEnd) c post may) :
    Ensures (atEnd >>= next) c post may := h

theorem Ensures.freshId {next : Nat → Parser α}
    (h : Ensures (next c.nextId) { c with nextId := c.nextId + 1 } post may) :
    Ensures (freshId >>= next) c post may := h

theorem Ensures.acceptAny {kinds : List Kind} {next : Option Token → Parser α}
    (hs : ∀ t c', c.Takes t c' → t.kind ∈ kinds → Ensures (next (some t)) c' post may)
    (hn : (∀ k ∈ kinds, c.sees k = false) → Ensures (next none) c post may) :
    Ensures (acceptAny kinds >>= next) c post may := by
  show match EStateM.bind (Parser.acceptAny kinds) next c with
    | .ok a c' => post a c' | .error e _ => may e
  unfold EStateM.bind Parser.acceptAny
  by_cases h : kinds.any c.sees
  · rw [if_pos h]
    obtain ⟨k, hk, hck⟩ := List.any_eq_true.1 h
    obtain ⟨ht, hkind⟩ := Cursor.sees_eq_true hck
    exact hs _ _ ht (hkind ▸ hk)
  · rw [if_neg h]
    exact hn (by simpa using h)

theorem Ensures.accept {kind : Kind} {next : Option Token → Parser α}
    (hs : ∀ t c', c.Takes t c' → t.kind = kind → Ensures (next (some t)) c' post may)
    (hn : c.sees kind = false → Ensures (next none) c post may) :
    Ensures (accept kind >>= next) c post may :=
  Ensures.acceptAny (fun t c' ht hk => hs t c' ht (by simpa using hk))
    fun h => hn (h kind (by simp))

theorem Ensures.expect {kind : Kind} {cause : ParseCause} {next : Token → Parser α}
    (hs : ∀ t c', c.Takes t c' → t.kind = kind → Ensures (next t) c' post may)
    (hn : c.sees kind = false → may (.rejected ⟨c.peek, cause⟩)) :
    Ensures (expect kind cause >>= next) c post may := by
  show match EStateM.bind (Parser.expect kind cause) next c with
    | .ok a c' => post a c' | .error e _ => may e
  unfold EStateM.bind Parser.expect
  by_cases h : c.sees kind = true
  · rw [if_pos h]
    obtain ⟨ht, hkind⟩ := Cursor.sees_eq_true h
    exact hs _ _ ht hkind
  · rw [if_neg h]
    exact hn (by simpa using h)

end Parser

/-! ### The signs between two cursors -/

/-- The numbers count on from `n`. -/
def Numbered (n : Nat) (ids : List Int) : Prop :=
  ids = (List.range' n ids.length).map Int.ofNat

theorem Numbered.append {n : Nat} {ids more : List Int} (h : Numbered n ids)
    (h' : Numbered (n + ids.length) more) : Numbered n (ids ++ more) := by
  unfold Numbered at *
  rw [List.length_append, ← List.range'_append_1, List.map_append, ← h, ← h']

/-- The numbers are pairwise different. -/
theorem Numbered.nodup {n : Nat} {ids : List Int} (h : Numbered n ids) : ids.Nodup := by
  rw [h]
  exact (List.nodup_range' (s := n) (n := ids.length)).map fun a b h => Int.ofNat.inj h

theorem Numbered.nonneg {n : Nat} {ids : List Int} (h : Numbered n ids) {id : Int}
    (hid : id ∈ ids) : 0 ≤ id := by
  rw [h] at hid
  obtain ⟨m, -, rfl⟩ := List.mem_map.1 hid
  exact Int.natCast_nonneg m

/-- From the first cursor to the second, the signs are read and the numbers are handed out. -/
structure Cursor.Reads (c : Cursor) (signs : List Sign) (ids : List Int) (c' : Cursor) : Prop where
  tokens : ∃ ts, c.rest = ts ++ c'.rest ∧ (∀ t ∈ ts, t.kind ≠ .eof) ∧ ts.map Token.sign = signs
  numbered : Numbered c.nextId ids
  nextId : c'.nextId = c.nextId + ids.length

/-- All tokens that are left are standard. -/
def Cursor.Standard (c : Cursor) : Prop := ∀ t ∈ c.rest, t.Standard

namespace Cursor

variable {c c₁ c₂ : Cursor}

theorem Reads.trans {signs more : List Sign} {ids new : List Int} (h : c.Reads signs ids c₁)
    (h' : c₁.Reads more new c₂) : c.Reads (signs ++ more) (ids ++ new) c₂ := by
  obtain ⟨ts, e, hk, hs⟩ := h.tokens
  obtain ⟨us, e', hk', hs'⟩ := h'.tokens
  refine ⟨⟨ts ++ us, by simp [e, e'], ?_, by simp [hs, hs']⟩, ?_, ?_⟩
  · intro t ht
    rcases List.mem_append.1 ht with ht | ht
    · exact hk t ht
    · exact hk' t ht
  · exact h.numbered.append (h.nextId ▸ h'.numbered)
  · rw [h'.nextId, h.nextId, List.length_append, Nat.add_assoc]

theorem Reads.refl (c : Cursor) : c.Reads [] [] c :=
  ⟨⟨[], rfl, by simp, rfl⟩, rfl, rfl⟩

theorem Reads.length {signs : List Sign} {ids : List Int} (h : c.Reads signs ids c₁) :
    c.rest.length = signs.length + c₁.rest.length := by
  obtain ⟨ts, e, -, hs⟩ := h.tokens
  rw [e, ← hs, List.length_append, List.length_map]

theorem Reads.shorter {signs : List Sign} {ids : List Int} (h : c.Reads signs ids c₁)
    (hs : signs ≠ []) : c₁.rest.length < c.rest.length := by
  have := h.length
  have := List.length_pos_of_ne_nil hs
  omega

theorem Reads.standard {signs : List Sign} {ids : List Int} (h : c.Reads signs ids c₁)
    (hc : c.Standard) : c₁.Standard := by
  obtain ⟨ts, e, -, -⟩ := h.tokens
  intro t ht
  exact hc t (by rw [e]; exact List.mem_append_right _ ht)

theorem Takes.reads {t : Token} (h : c.Takes t c₁) : c.Reads [t.sign] [] c₁ :=
  ⟨⟨[t], h.rest, by simpa using h.kind, rfl⟩, rfl, h.nextId⟩

theorem Takes.standard {t : Token} (h : c.Takes t c₁) (hc : c.Standard) : t.Standard :=
  hc t (by rw [h.rest]; exact List.mem_cons_self)

/-- A reserved word or a mark is read as its spelling. -/
theorem Takes.reads_mark {t : Token} {k : Kind} (h : c.Takes t c₁) (hc : c.Standard)
    (hk : t.kind = k) (hv : k.varies = false) : c.Reads [.mark k] [] c₁ := by
  subst hk
  have := h.reads
  rwa [(h.standard hc).sign_eq_mark hv] at this

end Cursor

/-! ### Failures -/

/-- The failures of a parser: it may reject a token, and its bound on the depth of rules may have
been reached unless it was large enough. -/
def Failure.Within (enough : Prop) : Failure → Prop
  | .rejected _ => True
  | .malformed _ => False
  | .exhausted => ¬ enough

theorem Failure.Within.mono {p q : Prop} (h : q → p) {e : Failure} (he : e.Within p) :
    e.Within q := by
  cases e with
  | rejected => trivial
  | malformed => exact he
  | exhausted => exact fun hq => he (h hq)

end Wandika
