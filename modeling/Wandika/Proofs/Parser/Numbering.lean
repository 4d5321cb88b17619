import Wandika.Proofs.Parser.Onward
import Wandika.Proofs.Parser.Order
import Wandika.Proofs.Scope.TableSize
import Wandika.Proofs.Tree.Nodes

/-!
# The numbering of variable nodes

One parser may be run several times on the tokens of a text, each time from the token where it
stopped before, whether it had given a program or had rejected the token. Its node numbers go on
counting from run to run, and every program that a run gives holds all the numbers of its run.

* `Cursor.afterRuns`: where a parser stands after some runs;
* `Cursor.onward_afterRuns`: later runs begin further on;
* `nodes_numbered`: the nodes of a program are numbered in source order without a gap.
-/

namespace Wandika

/-- Where the parser of a text stands after some runs, each begun where the one before stopped. -/
def Cursor.afterRuns (source : List Char) : Nat → Cursor
  | 0 => .ofSource source
  | k + 1 => (Program.parse (afterRuns source k)).2

namespace Cursor

variable (source : List Char)

theorem onward_afterRuns {j k : Nat} (h : j ≤ k) :
    (afterRuns source j).Onward (afterRuns source k) := by
  induction k, h using Nat.le_induction with
  | base => exact .refl _
  | succ k _ ih => exact ih.trans (Program.onward_parse _)

/-- What is left after any number of runs are the last tokens of the text. -/
theorem rest_afterRuns (k : Nat) : (afterRuns source k).rest <:+ (scan source).tokens :=
  (onward_afterRuns source (Nat.zero_le k)).rest

end Cursor

section Runs

variable {source : List Char} {k : Nat} {p : Program}

theorem Program.fromText_of_run (h : (Program.parse (.afterRuns source k)).1 = .ok p) :
    p.FromText source (.afterRuns source k) (.afterRuns source (k + 1)) :=
  ⟨Cursor.rest_afterRuns source k, Prod.ext h rfl⟩

namespace Program.FromText

variable {c c' : Cursor}

/-- The numbers of the nodes, from left to right, are those that the run has handed out. -/
theorem ids_nodesAll (h : p.FromText source c c') :
    (Stmt.nodesAll p.stmts).map Prod.fst =
      (List.range' c.nextId (c'.nextId - c.nextId)).map Int.ofNat := by
  obtain ⟨hnumbered, hnodes⟩ := h.numbered
  obtain ⟨-, -, -, hend⟩ := h.ensures
  have hlength : c'.nextId - c.nextId = (Stmt.idsAll p.stmts).length := by omega
  rw [Stmt.ids_nodesAll, hlength]
  exact hnumbered

/-- The nodes stand in source order. -/
theorem sorted_nodesAll (h : p.FromText source c c') :
    ((Stmt.nodesAll p.stmts).map Prod.snd).Pairwise Token.Before :=
  h.sorted_names.sublist (Stmt.carriesAll p.stmts)

/-- A number of a node lies between the two cursors. -/
theorem mem_range (h : p.FromText source c c') {i : Int}
    (hi : i ∈ (Stmt.nodesAll p.stmts).map Prod.fst) :
    (c.nextId : Int) ≤ i ∧ i < c'.nextId := by
  rw [h.ids_nodesAll] at hi
  obtain ⟨n, hn, rfl⟩ := List.mem_map.1 hi
  have := List.mem_range'_1.1 hn
  simp only [Int.ofNat_eq_natCast]
  omega

theorem inTable (h : p.FromText source c c') : InTable p.nodes (Stmt.idsAll p.stmts) := by
  obtain ⟨-, -, -, hend⟩ := h.ensures
  intro i hi
  rw [← Stmt.ids_nodesAll] at hi
  have := h.mem_range hi
  omega

end Program.FromText

end Runs

/-- Whatever a parser has done before: if a run gives a program, then its variable nodes in source
order have the numbers from where the counter stood before the run up to where it stands after it,
which is the number of nodes that the program was counted to have. So no number is given twice, in
one run or in two, and the table of the program never grows, however its analysis ends. -/
theorem nodes_numbered (source : List Char) (k : Nat) (p : Program)
    (h : (Program.parse (.afterRuns source k)).1 = .ok p) :
    ((Stmt.nodesAll p.stmts).map Prod.snd).Pairwise Token.Before ∧
      (∃ n m : Nat, n = (Cursor.afterRuns source k).nextId ∧
        m = (Cursor.afterRuns source (k + 1)).nextId ∧ n ≤ m ∧
        (Stmt.nodesAll p.stmts).map Prod.fst = (List.range' n (m - n)).map Int.ofNat ∧
        p.nodes = m) ∧
      ((Stmt.nodesAll p.stmts).map Prod.fst).Nodup ∧
      (∀ (j : Nat) (q : Program), j < k → (Program.parse (.afterRuns source j)).1 = .ok q →
        ((Stmt.nodesAll q.stmts).map Prod.fst).Disjoint ((Stmt.nodesAll p.stmts).map Prod.fst)) ∧
      ∀ r : Resolver, (r.resolve p).1.locals.size = p.nodes := by
  have hp := Program.fromText_of_run h
  obtain ⟨hnumbered, -⟩ := hp.numbered
  obtain ⟨-, -, -, hend⟩ := hp.ensures
  refine ⟨hp.sorted_nodesAll, ⟨_, _, rfl, rfl, ?_, hp.ids_nodesAll, hend⟩, ?_, ?_, ?_⟩
  · exact (Cursor.onward_afterRuns source (Nat.le_succ k)).nextId
  · rw [Stmt.ids_nodesAll]
    exact hnumbered.nodup
  · intro j q hjk hq i hi hi'
    -- the numbers of an earlier run end where or before those of this one begin
    have hle := (Cursor.onward_afterRuns source (j := j + 1) hjk).nextId
    have hlt := ((Program.fromText_of_run hq).mem_range hi).2
    have hge := (hp.mem_range hi').1
    omega
  · exact fun r => r.size_resolve hp.inTable

/-- The first run takes `a` and rejects `b`. The second one begins there, and counts on. -/
theorem nodes_numbered_after_rejection : ∃ p : Program,
    (match (Program.parse (.afterRuns "a b = c;".toList 0)).1 with
      | .error (.rejected e) => e.cause = .endOfExpression
      | _ => False) ∧
    (Program.parse (.afterRuns "a b = c;".toList 1)).1 = .ok p ∧
    (Stmt.nodesAll p.stmts).map Prod.fst = [1, 2] ∧ p.nodes = 3 ∧
    ∀ r : Resolver, (r.resolve p).1.locals.size = 3 :=
  ⟨_, rfl, rfl, rfl, rfl, (nodes_numbered "a b = c;".toList 1 _ rfl).2.2.2.2⟩

end Wandika
