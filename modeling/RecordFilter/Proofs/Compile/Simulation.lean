import RecordFilter.Compile

/-!
# Compiling with a memory

`Filter.compileWith` runs in any monad. A run that keeps a memory beside its state is compared here
with one that has the state alone: `Simulates inv x y` says that from every memory with the
invariant `inv` the run `x` answers what `y` answers and leaves the state that `y` leaves, and that
the invariant survives.

It is enough that resolving one selector and reducing one pattern simulate
(`simulates_compileWith`); sequencing and the tree need no argument of their own for each memory.
-/

namespace RecordFilter

open RecordFilter.Filter

variable {ρ σ ε α β : Type}

/-! ## Running -/

/-- The answer of a computation from a state, and the state after it. -/
def exec (x : ExceptT ε (StateM σ) α) (s : σ) : Except ε α × σ := Id.run (x.run.run s)

theorem exec_bind (x : ExceptT ε (StateM σ) α) (f : α → ExceptT ε (StateM σ) β) (s : σ) :
    exec (x >>= f) s = match exec x s with
      | (.ok a, s) => exec (f a) s
      | (.error e, s) => (.error e, s) := by
  simp only [exec, ExceptT.run_bind, StateT.run_bind, Id.run_bind]
  rcases Id.run (x.run.run s) with ⟨_ | _, _⟩ <;> rfl

/-- Making something of an answer leaves the state alone. -/
theorem exec_bind_return (x : ExceptT ε (StateM σ) α) (make : α → β) (s : σ) :
    exec (do return make (← x)) s = (do return make (← (exec x s).1), (exec x s).2) := by
  rw [exec_bind]
  rcases exec x s with ⟨_ | _, _⟩ <;> rfl

theorem exec_bind_eq_ok_iff {x : ExceptT ε (StateM σ) α} {f : α → ExceptT ε (StateM σ) β} {b : β}
    {s s' : σ} : exec (x >>= f) s = (.ok b, s') ↔
      ∃ a t, exec x s = (.ok a, t) ∧ exec (f a) t = (.ok b, s') := by
  rw [exec_bind]
  rcases exec x s with ⟨e | a, t⟩
  · exact ⟨nofun, by rintro ⟨_, _, ⟨⟩, -⟩⟩
  · exact ⟨fun h => ⟨a, t, rfl, h⟩, by rintro ⟨_, _, ⟨⟩, h⟩; exact h⟩

theorem exec_bind_eq_error_iff {x : ExceptT ε (StateM σ) α} {f : α → ExceptT ε (StateM σ) β} {e : ε}
    {s s' : σ} : exec (x >>= f) s = (.error e, s') ↔
      exec x s = (.error e, s') ∨ ∃ a t, exec x s = (.ok a, t) ∧ exec (f a) t = (.error e, s') := by
  rw [exec_bind]
  rcases exec x s with ⟨e' | a, t⟩
  · exact ⟨fun h => by cases h; exact .inl rfl, by rintro (⟨⟨⟩⟩ | ⟨_, _, ⟨⟩, -⟩); rfl⟩
  · exact ⟨fun h => .inr ⟨a, t, rfl, h⟩, by rintro (⟨⟨⟩⟩ | ⟨_, _, ⟨⟩, h⟩); exact h⟩

@[simp] theorem exec_pure (a : α) (s : σ) :
    exec (pure a : ExceptT ε (StateM σ) α) s = (.ok a, s) := rfl

@[simp] theorem exec_throw (e : ε) (s : σ) :
    exec (throw e : ExceptT ε (StateM σ) α) s = (.error e, s) := rfl

@[simp] theorem exec_liftExcept (x : Except ε α) (s : σ) :
    exec (liftM x : ExceptT ε (StateM σ) α) s = (x, s) := by
  cases x <;> rfl

theorem exec_lift (x : StateM σ α) (s : σ) :
    exec (liftM x : ExceptT ε (StateM σ) α) s = (.ok (x s).1, (x s).2) := rfl

theorem exec_mk (x : StateM σ (Except ε α)) (s : σ) :
    exec (ExceptT.mk x : ExceptT ε (StateM σ) α) s = x s := rfl

/-- The answer of a computation without a state. -/
def answer (y : ExceptT ε Id α) : Except ε α := Id.run y.run

theorem answer_bind (y : ExceptT ε Id α) (f : α → ExceptT ε Id β) :
    answer (y >>= f) = answer y >>= fun a => answer (f a) := by
  simp only [answer, ExceptT.run_bind, Id.run_bind]
  cases Id.run y.run <;> rfl

@[simp] theorem answer_pure (a : α) : answer (pure a : ExceptT ε Id α) = .ok a := rfl

@[simp] theorem answer_liftExcept (x : Except ε α) : answer (liftM x : ExceptT ε Id α) = x := by
  cases x <;> rfl

/-! ## Simulation -/

/-- From every memory with the invariant the first computation does what the second does from the
state alone, and keeps the invariant. -/
def Simulates (inv : ρ → Prop) (x : ExceptT ε (StateM (ρ × σ)) α) (y : ExceptT ε (StateM σ) α) :
    Prop :=
  ∀ r s, inv r → ∃ r', exec x (r, s) = ((exec y s).1, r', (exec y s).2) ∧ inv r'

variable {inv : ρ → Prop}

theorem simulates_pure (a : α) : Simulates (ε := ε) (σ := σ) inv (pure a) (pure a) :=
  fun r _ hr => ⟨r, rfl, hr⟩

theorem simulates_bind {x : ExceptT ε (StateM (ρ × σ)) α} {y : ExceptT ε (StateM σ) α}
    {f : α → ExceptT ε (StateM (ρ × σ)) β} {g : α → ExceptT ε (StateM σ) β}
    (hx : Simulates inv x y) (hf : ∀ a, Simulates inv (f a) (g a)) :
    Simulates inv (x >>= f) (y >>= g) := by
  intro r s hr
  obtain ⟨r', hrun, hr'⟩ := hx r s hr
  rw [exec_bind, exec_bind, hrun]
  rcases exec y s with ⟨e | a, s'⟩
  · exact ⟨r', rfl, hr'⟩
  · -- the second computation runs from the memory that the first one left
    exact hf a r' s' hr'

/-- An action with a memory that does what one without does, and keeps an invariant of the
memory. -/
def ActsLike (inv : ρ → Prop) (x : StateM (ρ × σ) α) (y : StateM σ α) : Prop :=
  ∀ r s, inv r → ∃ r', x (r, s) = ((y s).1, r', (y s).2) ∧ inv r'

theorem simulates_lift {x : StateM (ρ × σ) α} {y : StateM σ α} (h : ActsLike inv x y) :
    Simulates inv (liftM x : ExceptT ε (StateM (ρ × σ)) α) (liftM y) := by
  intro r s hr
  obtain ⟨r', hrun, hr'⟩ := h r s hr
  refine ⟨r', ?_, hr'⟩
  rw [exec_lift, exec_lift, hrun]

/-- What can fail without the state leaves it alone. -/
theorem simulates_liftExcept (x : Except ε α) :
    Simulates inv (liftM x : ExceptT ε (StateM (ρ × σ)) α) (liftM x) := by
  intro r s hr
  refine ⟨r, ?_, hr⟩
  rw [exec_liftExcept, exec_liftExcept]

theorem simulates_throw (e : ε) :
    Simulates inv (throw e : ExceptT ε (StateM (ρ × σ)) α) (throw e) :=
  fun r _ hr => ⟨r, rfl, hr⟩

mutual

/-- **A tree is simulated leaf by leaf.** -/
theorem simulates_traverse {f : α → ExceptT ε (StateM (ρ × σ)) β} {g : α → ExceptT ε (StateM σ) β}
    (h : ∀ a, Simulates inv (f a) (g a)) : ∀ t : Node α,
    Simulates inv (t.traverse f) (t.traverse g)
  | .or children => by
    rw [Node.traverse, Node.traverse]
    exact simulates_bind (simulates_traverseAll h children) fun _ => simulates_pure _
  | .and children => by
    rw [Node.traverse, Node.traverse]
    exact simulates_bind (simulates_traverseAll h children) fun _ => simulates_pure _
  | .leaf a => by
    rw [Node.traverse, Node.traverse]
    exact simulates_bind (h a) fun _ => simulates_pure _

theorem simulates_traverseAll {f : α → ExceptT ε (StateM (ρ × σ)) β}
    {g : α → ExceptT ε (StateM σ) β} (h : ∀ a, Simulates inv (f a) (g a)) :
    ∀ ts : List (Node α), Simulates inv (Node.traverseAll f ts) (Node.traverseAll g ts)
  | [] => by
    rw [Node.traverseAll, Node.traverseAll]
    exact simulates_pure _
  | t :: rest => by
    rw [Node.traverseAll, Node.traverseAll]
    exact simulates_bind (simulates_traverse h t) fun _ =>
      simulates_bind (simulates_traverseAll h rest) fun _ => simulates_pure _

end

/-! ## Compiling -/

variable {resolve : String → StateM (ρ × σ) (Except PropertyNotFound Property)}
  {resolve' : String → StateM σ (Except PropertyNotFound Property)}
  {reduce : List Char → StateM (ρ × σ) Like} {reduce' : List Char → StateM σ Like}

theorem simulates_compileFor (hreduce : ∀ pattern, ActsLike inv (reduce pattern) (reduce' pattern))
    (c : Comparison) (p : Property) :
    Simulates inv (c.compileFor reduce p) (c.compileFor reduce' p) := by
  unfold Comparison.compileFor
  cases c.comparator with
  | eq | neq => exact simulates_liftExcept (c.relate p _)
  | lt | le | gt | ge => exact simulates_liftExcept (c.order p _)
  | isNull | notNull | isTrue | isFalse =>
    exact simulates_bind (simulates_liftExcept (c.require p _)) fun _ => simulates_pure _
  | like =>
    exact simulates_bind (simulates_liftExcept (c.require p _)) fun _ =>
      simulates_bind (simulates_liftExcept (c.pattern p)) fun pattern =>
        simulates_bind (simulates_lift (hreduce pattern)) fun _ => simulates_pure _
  | within | without =>
    exact simulates_bind (simulates_liftExcept (c.someValues p)) fun _ => simulates_pure _

theorem simulates_compile
    (hresolve : ∀ selector, ActsLike inv (resolve selector) (resolve' selector))
    (hreduce : ∀ pattern, ActsLike inv (reduce pattern) (reduce' pattern)) (c : Comparison) :
    Simulates inv (c.compile resolve reduce) (c.compile resolve' reduce') := by
  unfold Comparison.compile
  refine simulates_bind (simulates_lift (hresolve c.selector)) fun r => ?_
  cases r with
  | ok p => exact simulates_compileFor hreduce c p
  | error e => exact simulates_throw _

/-- **A memory of resolved selectors does not show in a compiled filter.** -/
theorem simulates_compileWith
    (hresolve : ∀ selector, ActsLike inv (resolve selector) (resolve' selector))
    (hreduce : ∀ pattern, ActsLike inv (reduce pattern) (reduce' pattern)) (f : Filter) :
    Simulates inv (f.compileWith resolve reduce) (f.compileWith resolve' reduce') := by
  unfold Filter.compileWith
  exact simulates_bind (simulates_traverse (simulates_compile hresolve hreduce) f) fun _ =>
    simulates_pure _

end RecordFilter
