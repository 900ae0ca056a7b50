import RecordFilter.Proofs.Compile.Outcome

/-!
# Compiling with drawn markers

The comparisons of a filter are compiled one after another, and each draws what it needs from the
markers that the ones before it have left. Putting down these markers beside each comparison makes
the compilation a walk without a state (`exists_drawn`): the tree compiles if every leaf does, to
the tree of what the leaves compile to (`exists_rel_of_compile`).

What is drawn makes no difference to errors (`compile_eq_error`), and where no marker shows it makes
none to predicates either (`Hidden.compile_eq`).
-/

namespace RecordFilter

open RecordFilter.Filter RecordFilter.Like

variable {α β ε : Type}

/-! ## Walks with markers -/

/-- An element with the markers that are still to come at it, in a walk that begins with `d`. -/
def Drawn (d : Draws) (a : α) (b : α × Draws) : Prop := b.1 = a ∧ d.Leads b.2

theorem Drawn.of_leads {d d' : Draws} (h : d.Leads d') (a : α) (b : α × Draws)
    (hb : Drawn d' a b) : Drawn d a b :=
  ⟨hb.1, h.trans hb.2⟩

namespace Filter.Node

variable {f : α → ExceptT ε (StateM Draws) β}

mutual

/-- **A walk with a state as one without**: each leaf is visited with the markers beside it. -/
theorem exists_drawn (hf : ∀ (a : α) (d : Draws), d.Leads (exec (f a) d).2) :
    ∀ (t : Node α) (d : Draws), ∃ u : Node (α × Draws), t.Rel (Drawn d) u ∧
      d.Leads (exec (t.traverse f) d).2 ∧
      (exec (t.traverse f) d).1 = u.traverse fun b => (exec (f b.1) b.2).1
  | .or ts, d => by
    obtain ⟨us, hrel, hlater, hrun⟩ := exists_drawnAll hf ts d
    refine ⟨.or us, hrel, ?_⟩
    rw [traverse, exec_bind_return, traverse, hrun]
    exact ⟨hlater, rfl⟩
  | .and ts, d => by
    obtain ⟨us, hrel, hlater, hrun⟩ := exists_drawnAll hf ts d
    refine ⟨.and us, hrel, ?_⟩
    rw [traverse, exec_bind_return, traverse, hrun]
    exact ⟨hlater, rfl⟩
  | .leaf a, d => by
    refine ⟨.leaf (a, d), ⟨rfl, .refl d⟩, ?_⟩
    rw [traverse, exec_bind_return, traverse]
    exact ⟨hf a d, rfl⟩

theorem exists_drawnAll (hf : ∀ (a : α) (d : Draws), d.Leads (exec (f a) d).2) :
    ∀ (ts : List (Node α)) (d : Draws), ∃ us : List (Node (α × Draws)),
      RelAll (Drawn d) ts us ∧ d.Leads (exec (traverseAll f ts) d).2 ∧
      (exec (traverseAll f ts) d).1 = traverseAll (fun b => (exec (f b.1) b.2).1) us
  | [], d => ⟨[], trivial, .refl d, rfl⟩
  | t :: ts, d => by
    obtain ⟨u, hrel, hlater, hrun⟩ := exists_drawn hf t d
    rw [traverseAll, exec_bind]
    rcases hfirst : exec (t.traverse f) d with ⟨e | v, d'⟩
    · rw [hfirst] at hlater hrun
      obtain ⟨us, hrest, -⟩ := exists_drawnAll hf ts d
      refine ⟨u :: us, ⟨hrel, hrest⟩, hlater, ?_⟩
      rw [traverseAll, ← hrun]
      rfl
    · rw [hfirst] at hlater hrun
      -- the rest of the walk begins with the markers that this tree has left
      obtain ⟨us, hrest, hlast, hruns⟩ := exists_drawnAll hf ts d'
      refine ⟨u :: us, ⟨hrel, hrest.imp (Drawn.of_leads hlater)⟩, ?_⟩
      dsimp only
      rw [exec_bind_return, traverseAll, ← hrun, hruns]
      exact ⟨hlater.trans hlast, rfl⟩

end

end Filter.Node

/-! ## Comparisons -/

namespace Filter.Comparison

/-- Compiling a comparison on an entity. -/
def drawIn (e : Entity) (n : Naming) (c : Comparison) :
    ExceptT CompileError (StateM Draws) Predicate :=
  c.compile (fun selector => return e.resolve n selector) ofPattern

theorem exec_drawIn (e : Entity) (n : Naming) (c : Comparison) (d : Draws) :
    (exec (c.drawIn e n) d).1 = c.compileIn d.read e n ∧ d.Leads (exec (c.drawIn e n) d).2 := by
  obtain ⟨d', hrun, hlater⟩ := c.exists_exec_compile ofPattern e n d
  rw [drawIn, hrun]
  refine ⟨rfl, ?_⟩
  rcases hlater with rfl | ⟨pattern, rfl⟩
  · exact .refl _
  · exact leads_ofPattern pattern d

end Filter.Comparison

/-! ## Filters -/

namespace Filter

variable {f : Filter} {e : Entity} {n : Naming} {d : Draws} {q : Predicate} {err : CompileError}

theorem compile_eq_exec : f.compile e n d =
    exec (do return Predicate.ofNode (← f.traverse (Comparison.drawIn e n))) d := rfl

/-- **A filter compiles comparison by comparison**, each with the markers that are still to come at
it. -/
theorem exists_compile (f : Filter) (e : Entity) (n : Naming) (d : Draws) :
    ∃ u : Node (Comparison × Draws), f.Rel (Drawn d) u ∧ d.Leads (f.compile e n d).2 ∧
      (f.compile e n d).1 =
        do return Predicate.ofNode (← u.traverse fun b => b.1.compileIn b.2.read e n) := by
  obtain ⟨u, hrel, hlater, hrun⟩ :=
    Node.exists_drawn (fun c d => (Comparison.exec_drawIn e n c d).2) f d
  rw [compile_eq_exec, exec_bind_return, hrun]
  simp only [(Comparison.exec_drawIn e n _ _).1]
  exact ⟨u, hrel, hlater, rfl⟩

/-- What a filter compiles to is the tree of what its comparisons compile to. -/
theorem exists_drawn_of_compile (h : (f.compile e n d).1 = .ok q) :
    ∃ (u : Node (Comparison × Draws)) (t : Node Predicate), f.Rel (Drawn d) u ∧
      u.Rel (fun b r => b.1.compileIn b.2.read e n = .ok r) t ∧ q = .ofNode t := by
  obtain ⟨u, hrel, -, hrun⟩ := exists_compile f e n d
  rw [hrun, bind_eq_ok_iff] at h
  obtain ⟨t, ht, ⟨⟩⟩ := h
  exact ⟨u, t, hrel, Node.traverse_eq_ok_iff.1 ht, rfl⟩

theorem exists_rel_of_compile (h : (f.compile e n d).1 = .ok q) :
    ∃ t, f.Rel (fun c r => ∃ d' : Draws, d.Leads d' ∧ c.compileIn d'.read e n = .ok r) t ∧
      q = .ofNode t := by
  obtain ⟨u, t, hdrawn, ht, rfl⟩ := exists_drawn_of_compile h
  refine ⟨t, (hdrawn.comp ht).imp ?_, rfl⟩
  rintro c r ⟨⟨c, d'⟩, ⟨rfl, hlater⟩, hr⟩
  exact ⟨d', hlater, hr⟩

/-- The comparisons of a filter that compiles do so, too. -/
theorem exists_compileIn (reduce : List Char → Like) (h : (f.compile e n d).1 = .ok q) :
    ∀ c ∈ f.comparisons, ∃ r, c.compileIn reduce e n = .ok r := by
  obtain ⟨t, ht, -⟩ := exists_rel_of_compile h
  intro c hc
  obtain ⟨r, -, d', -, hr⟩ := exists_mem_of_forall₂ ht.forall₂_leaves c hc
  exact Comparison.exists_compileIn_congr.1 ⟨r, hr⟩

/-- A comparison alone is compiled with the markers that are still to come. -/
theorem compile_leaf (c : Comparison) : (compile (.leaf c) e n d).1 = c.compileIn d.read e n := by
  rw [compile_eq_exec, exec_bind_return, Node.traverse, exec_bind_return, (c.exec_drawIn e n d).1]
  cases c.compileIn d.read e n <;> rfl

/-- A filter of one comparison compiles to what the comparison does. -/
theorem compile_single (c : Comparison) :
    (compile (.or [.and [.leaf c]]) e n d).1 = c.compileIn d.read e n := by
  rw [← compile_leaf, compile_eq_exec, compile_eq_exec]
  simp only [Node.traverse, Node.traverseAll, exec_bind, exec_pure]
  rcases exec (c.drawIn e n) d with ⟨_ | _, _⟩ <;> rfl

/-- **Draws make no errors**: a filter fails with the error of its first comparison that fails,
however patterns are reduced. -/
theorem compile_eq_error (reduce : List Char → Like) : (f.compile e n d).1 = .error err ↔
    Node.FirstError (Comparison.compileIn reduce e n) f.comparisons err := by
  obtain ⟨u, hdrawn, -, hrun⟩ := exists_compile f e n d
  rw [hrun, bind_return_eq_error, Node.traverse_eq_error_iff, comparisons]
  refine (Node.firstError_congr (hdrawn.forall₂_leaves.imp fun c b hb e => ?_)).symm
  rw [← hb.1]
  exact Comparison.compileIn_eq_error_congr

/-! ## Where no marker shows -/

/-- The texts that a filter may take for patterns. -/
def patterns (f : Filter) : List (List Char) := f.comparisons.flatMap Comparison.patterns

/-- No marker that is still to come shows in a pattern of the filter. -/
def Hidden (d : Draws) (f : Filter) : Prop := ∀ pattern ∈ f.patterns, d.Hidden pattern

theorem Hidden.of_leads {d' : Draws} (h : Hidden d f) (hlater : d.Leads d') : Hidden d' f :=
  fun pattern hpattern => (h pattern hpattern).of_leads hlater

/-- What a filter compiles to if patterns are reduced to what they mean. -/
def compileMeant (f : Filter) (e : Entity) (n : Naming) : Except CompileError Predicate := do
  return Predicate.ofNode (← f.traverse (Comparison.compileIn meant e n))

/-- **Where no marker shows, the draws do not matter.** -/
theorem Hidden.compile_eq (h : Hidden d f) : (f.compile e n d).1 = f.compileMeant e n := by
  obtain ⟨u, hdrawn, -, hrun⟩ := exists_compile f e n d
  rw [hrun, compileMeant]
  congr 1
  refine (hdrawn.traverse_congr ?_).symm
  rintro c hc ⟨c, d'⟩ ⟨rfl, hlater⟩
  refine Comparison.compileIn_congr fun pattern hpattern => ?_
  have hhidden : d.Hidden pattern := h pattern (List.mem_flatMap_of_mem hc hpattern)
  exact (hhidden.of_leads hlater).read_eq.symm

end Filter

end RecordFilter
