import Mathlib.Data.List.Forall2
import RecordFilter.Filter.Node

/-!
# Running through the leaves of a tree

`Node.traverse` with an action that can fail. It succeeds if the action succeeds on every leaf, and
the shape of the tree stays (`traverse_eq_ok_iff`); it fails with the error of the first leaf, from
the left, on which the action fails (`traverse_eq_error_iff`). The same is said of `mapM` on lists.
-/

namespace RecordFilter

/-- A computation in two steps succeeds if both do. -/
theorem bind_eq_ok_iff {ε α β : Type} {x : Except ε α} {f : α → Except ε β} {b : β} :
    (x >>= f) = .ok b ↔ ∃ a, x = .ok a ∧ f a = .ok b := by
  rcases x with e | a
  · exact ⟨nofun, by rintro ⟨_, ⟨⟩, -⟩⟩
  · exact ⟨fun h => ⟨a, rfl, h⟩, by rintro ⟨_, ⟨⟩, h⟩; exact h⟩

/-- A computation in two steps fails if the first does, or else the second. -/
theorem bind_eq_error_iff {ε α β : Type} {x : Except ε α} {f : α → Except ε β} {e : ε} :
    (x >>= f) = .error e ↔ x = .error e ∨ ∃ a, x = .ok a ∧ f a = .error e := by
  rcases x with e' | a
  · exact ⟨fun h => .inl (by injection h with h; rw [h]), by
      rintro (⟨⟨⟩⟩ | ⟨_, ⟨⟩, -⟩)
      rfl⟩
  · exact ⟨fun h => .inr ⟨a, rfl, h⟩, by
      rintro (⟨⟨⟩⟩ | ⟨_, ⟨⟩, h⟩)
      exact h⟩

/-- A result that is made of something fails only with that. -/
theorem bind_return_eq_error {ε α β : Type} {x : Except ε α} {make : α → β} {e : ε} :
    (do return make (← x)) = Except.error e ↔ x = .error e := by
  rw [bind_eq_error_iff]
  exact ⟨fun h => h.elim id (by rintro ⟨_, -, ⟨⟩⟩), .inl⟩

/-- Computations that fail alike succeed alike. -/
theorem exists_ok_congr {ε α β : Type} {x : Except ε α} {y : Except ε β}
    (h : ∀ e, x = .error e ↔ y = .error e) : (∃ a, x = .ok a) ↔ ∃ b, y = .ok b := by
  cases x <;> cases y <;> simp at h ⊢

/-- Renaming the error leaves success alone. -/
theorem mapError_eq_ok_iff {ε ε' α : Type} {x : Except ε α} {f : ε → ε'} {a : α} :
    x.mapError f = .ok a ↔ x = .ok a := by
  cases x <;> simp [Except.mapError]

theorem mapError_eq_error_iff {ε ε' α : Type} {x : Except ε α} {f : ε → ε'} {e : ε'} :
    x.mapError f = .error e ↔ ∃ cause, x = .error cause ∧ f cause = e := by
  cases x <;> simp [Except.mapError]

/-- What stands in one of two lists that are related one by one has its partner in the other. -/
theorem exists_mem_of_forall₂ {α β : Type} {R : α → β → Prop} {as : List α} {bs : List β}
    (h : List.Forall₂ R as bs) : ∀ a ∈ as, ∃ b ∈ bs, R a b := by
  induction h with
  | nil => nofun
  | cons hab _ ih =>
    refine List.forall_mem_cons.2 ⟨⟨_, List.mem_cons_self, hab⟩, fun a ha => ?_⟩
    obtain ⟨b, hb, hab⟩ := ih a ha
    exact ⟨b, List.mem_cons_of_mem _ hb, hab⟩

namespace Filter.Node

variable {α β γ ε : Type} {R : α → β → Prop}

/-! ## Trees of one shape -/

mutual

/-- The trees have one shape, and their leaves stand in a relation one by one. -/
def Rel (R : α → β → Prop) : Node α → Node β → Prop
  | .or ts, .or us => RelAll R ts us
  | .and ts, .and us => RelAll R ts us
  | .leaf a, .leaf b => R a b
  | _, _ => False

/-- As many trees in both lists, related one by one. -/
def RelAll (R : α → β → Prop) : List (Node α) → List (Node β) → Prop
  | [], [] => True
  | t :: ts, u :: us => Rel R t u ∧ RelAll R ts us
  | _, _ => False

end

mutual

theorem Rel.imp {S : α → β → Prop} (h : ∀ a b, R a b → S a b) : ∀ {t : Node α} {u : Node β},
    Rel R t u → Rel S t u
  | .or _, .or _, ht => RelAll.imp h ht
  | .and _, .and _, ht => RelAll.imp h ht
  | .leaf a, .leaf b, ht => h a b ht

theorem RelAll.imp {S : α → β → Prop} (h : ∀ a b, R a b → S a b) :
    ∀ {ts : List (Node α)} {us : List (Node β)}, RelAll R ts us → RelAll S ts us
  | [], [], _ => trivial
  | _ :: _, _ :: _, ht => ⟨Rel.imp h ht.1, RelAll.imp h ht.2⟩

end

mutual

/-- Where leaves are related by way of a third one, trees are by way of a third tree. -/
theorem Rel.exists_between {S : β → γ → Prop} : ∀ {t : Node α} {v : Node γ},
    Rel (fun a c => ∃ b, R a b ∧ S b c) t v → ∃ u, Rel R t u ∧ Rel S u v
  | .or ts, .or vs, h => by
    obtain ⟨us, htu, huv⟩ := RelAll.exists_between (show RelAll _ ts vs from h)
    exact ⟨.or us, htu, huv⟩
  | .and ts, .and vs, h => by
    obtain ⟨us, htu, huv⟩ := RelAll.exists_between (show RelAll _ ts vs from h)
    exact ⟨.and us, htu, huv⟩
  | .leaf _, .leaf _, ⟨b, hab, hbc⟩ => ⟨.leaf b, hab, hbc⟩

theorem RelAll.exists_between {S : β → γ → Prop} : ∀ {ts : List (Node α)} {vs : List (Node γ)},
    RelAll (fun a c => ∃ b, R a b ∧ S b c) ts vs → ∃ us, RelAll R ts us ∧ RelAll S us vs
  | [], [], _ => ⟨[], trivial, trivial⟩
  | t :: ts, v :: vs, h => by
    obtain ⟨u, htu, huv⟩ := Rel.exists_between h.1
    obtain ⟨us, htus, husv⟩ := RelAll.exists_between h.2
    exact ⟨u :: us, ⟨htu, htus⟩, huv, husv⟩

end

mutual

theorem Rel.comp {S : β → γ → Prop} : ∀ {t : Node α} {u : Node β} {v : Node γ},
    Rel R t u → Rel S u v → Rel (fun a c => ∃ b, R a b ∧ S b c) t v
  | .or _, .or _, .or _, h, h' => RelAll.comp h h'
  | .and _, .and _, .and _, h, h' => RelAll.comp h h'
  | .leaf _, .leaf b, .leaf _, h, h' => ⟨b, h, h'⟩

theorem RelAll.comp {S : β → γ → Prop} :
    ∀ {ts : List (Node α)} {us : List (Node β)} {vs : List (Node γ)},
      RelAll R ts us → RelAll S us vs → RelAll (fun a c => ∃ b, R a b ∧ S b c) ts vs
  | [], [], [], _, _ => trivial
  | _ :: _, _ :: _, _ :: _, h, h' => ⟨h.1.comp h'.1, h.2.comp h'.2⟩

end

theorem RelAll.ne_nil {ts : List (Node α)} {us : List (Node β)} (h : RelAll R ts us)
    (hne : ts ≠ []) : us ≠ [] := by
  rintro rfl
  cases ts with
  | nil => exact hne rfl
  | cons t ts => exact h.elim

theorem RelAll.forall₂ : ∀ {ts : List (Node α)} {us : List (Node β)}, RelAll R ts us →
    List.Forall₂ (Rel R) ts us
  | [], [], _ => .nil
  | _ :: _, _ :: _, h => .cons h.1 h.2.forall₂

theorem RelAll.exists_of_mem {ts : List (Node α)} {us : List (Node β)} {u : Node β}
    (h : RelAll R ts us) (hu : u ∈ us) : ∃ t ∈ ts, Rel R t u :=
  exists_mem_of_forall₂ h.forall₂.flip u hu

mutual

theorem traverse_eq_ok_iff {f : α → Except ε β} : ∀ {t : Node α} {u : Node β},
    t.traverse f = .ok u ↔ Rel (fun a b => f a = .ok b) t u
  | .or ts, u => by
    rw [traverse, bind_eq_ok_iff]
    constructor
    · rintro ⟨us, hus, ⟨⟩⟩
      exact traverseAll_eq_ok_iff.1 hus
    · intro h
      cases u with
      | or us => exact ⟨us, traverseAll_eq_ok_iff.2 h, rfl⟩
      | and us => exact h.elim
      | leaf b => exact h.elim
  | .and ts, u => by
    rw [traverse, bind_eq_ok_iff]
    constructor
    · rintro ⟨us, hus, ⟨⟩⟩
      exact traverseAll_eq_ok_iff.1 hus
    · intro h
      cases u with
      | or us => exact h.elim
      | and us => exact ⟨us, traverseAll_eq_ok_iff.2 h, rfl⟩
      | leaf b => exact h.elim
  | .leaf a, u => by
    rw [traverse, bind_eq_ok_iff]
    constructor
    · rintro ⟨b, hb, ⟨⟩⟩
      exact hb
    · intro h
      cases u with
      | or us => exact h.elim
      | and us => exact h.elim
      | leaf b => exact ⟨b, h, rfl⟩

theorem traverseAll_eq_ok_iff {f : α → Except ε β} : ∀ {ts : List (Node α)} {us : List (Node β)},
    traverseAll f ts = .ok us ↔ RelAll (fun a b => f a = .ok b) ts us
  | [], us => by
    cases us with
    | nil => exact ⟨fun _ => trivial, fun _ => rfl⟩
    | cons u us => exact ⟨nofun, False.elim⟩
  | t :: ts, us => by
    rw [traverseAll, bind_eq_ok_iff]
    simp only [bind_eq_ok_iff]
    constructor
    · rintro ⟨u, hu, us, hus, ⟨⟩⟩
      exact ⟨traverse_eq_ok_iff.1 hu, traverseAll_eq_ok_iff.1 hus⟩
    · intro h
      cases us with
      | nil => exact h.elim
      | cons u us =>
        exact ⟨u, traverse_eq_ok_iff.2 h.1, us, traverseAll_eq_ok_iff.2 h.2, rfl⟩

end

mutual

/-- Actions that do the same on related leaves do the same on related trees. -/
theorem Rel.traverse_congr {f : α → Except ε γ} {g : β → Except ε γ} :
    ∀ {t : Node α} {u : Node β}, (∀ a ∈ t.leaves, ∀ b, R a b → f a = g b) → Rel R t u →
      t.traverse f = u.traverse g
  | .or ts, .or us, hfg, h => by
    rw [leaves] at hfg
    rw [traverse, traverse, RelAll.traverseAll_congr hfg (show RelAll R ts us from h)]
  | .and ts, .and us, hfg, h => by
    rw [leaves] at hfg
    rw [traverse, traverse, RelAll.traverseAll_congr hfg (show RelAll R ts us from h)]
  | .leaf a, .leaf b, hfg, h => by
    rw [leaves] at hfg
    rw [traverse, traverse, hfg a (List.mem_singleton_self a) b h]

theorem RelAll.traverseAll_congr {f : α → Except ε γ} {g : β → Except ε γ} :
    ∀ {ts : List (Node α)} {us : List (Node β)},
      (∀ a ∈ leavesOf ts, ∀ b, R a b → f a = g b) → RelAll R ts us →
      traverseAll f ts = traverseAll g us
  | [], [], _, _ => by rw [traverseAll, traverseAll]
  | t :: ts, u :: us, hfg, h => by
    rw [leavesOf, List.forall_mem_append] at hfg
    rw [traverseAll, traverseAll, Rel.traverse_congr hfg.1 h.1,
      RelAll.traverseAll_congr hfg.2 h.2]

end

/-! ## The first failure -/

/-- An action succeeds on every element of a list. -/
def AllOk (f : α → Except ε β) (as : List α) : Prop := ∀ a ∈ as, ∃ b, f a = .ok b

/-- The error of the first element of a list on which an action fails. -/
def FirstError (f : α → Except ε β) : List α → ε → Prop
  | [], _ => False
  | a :: as, e => f a = .error e ∨ (∃ b, f a = .ok b) ∧ FirstError f as e

theorem firstError_append {f : α → Except ε β} {bs : List α} {e : ε} : ∀ {as : List α},
    FirstError f (as ++ bs) e ↔ FirstError f as e ∨ AllOk f as ∧ FirstError f bs e
  | [] => by simp [FirstError, AllOk]
  | a :: as => by
    -- the elements before `bs` that succeed are now one more
    simp only [List.cons_append, FirstError, firstError_append, AllOk, List.forall_mem_cons]
    constructor
    · rintro (h | ⟨ha, h | ⟨has, h⟩⟩)
      · exact .inl (.inl h)
      · exact .inl (.inr ⟨ha, h⟩)
      · exact .inr ⟨⟨ha, has⟩, h⟩
    · rintro ((h | ⟨ha, h⟩) | ⟨⟨ha, has⟩, h⟩)
      · exact .inl h
      · exact .inr ⟨ha, .inl h⟩
      · exact .inr ⟨ha, .inr ⟨has, h⟩⟩

theorem FirstError.not_allOk {f : α → Except ε β} {e : ε} : ∀ {as : List α},
    FirstError f as e → ¬ AllOk f as
  | [], h, _ => h
  | a :: as, h, hok => by
    rcases h with h | ⟨-, h⟩
    · obtain ⟨b, hb⟩ := hok a List.mem_cons_self
      rw [hb] at h
      cases h
    · exact h.not_allOk fun x hx => hok x (List.mem_cons_of_mem a hx)

/-- The element that fails, with those before it, which do not, and those behind it. -/
theorem firstError_iff_split {f : α → Except ε β} {e : ε} : ∀ {as : List α},
    FirstError f as e ↔
      ∃ before a after, as = before ++ a :: after ∧ AllOk f before ∧ f a = .error e
  | [] => by simp [FirstError]
  | a :: as => by
    rw [FirstError, firstError_iff_split]
    constructor
    · rintro (h | ⟨ha, before, b, after, rfl, hok, h⟩)
      · exact ⟨[], a, as, rfl, nofun, h⟩
      · exact ⟨a :: before, b, after, rfl, List.forall_mem_cons.2 ⟨ha, hok⟩, h⟩
    · rintro ⟨before, b, after, hsplit, hok, h⟩
      cases before with
      | nil =>
        obtain ⟨rfl, -⟩ := List.cons.inj hsplit
        exact .inl h
      | cons x before =>
        obtain ⟨rfl, rfl⟩ := List.cons.inj hsplit
        obtain ⟨ha, hok⟩ := List.forall_mem_cons.1 hok
        exact .inr ⟨ha, before, b, after, rfl, hok, h⟩

/-- The first failure is the same on lists whose elements fail alike one by one. -/
theorem firstError_congr {f : α → Except ε β} {g : γ → Except ε β} {as : List α} {cs : List γ}
    {e : ε} (h : List.Forall₂ (fun a c => ∀ e, f a = .error e ↔ g c = .error e) as cs) :
    FirstError f as e ↔ FirstError g cs e := by
  induction h with
  | nil => exact Iff.rfl
  | @cons a c as cs hac _ ih =>
    rw [FirstError, FirstError, hac e, exists_ok_congr hac, ih]

/-- The first element that fails of those that a test keeps. -/
theorem firstError_filter {f : α → Except ε β} {p : α → Bool} {as : List α} {e : ε} :
    FirstError f (as.filter p) e ↔
      ∃ before a after, as = before ++ a :: after ∧
        (∀ b ∈ before, p b = true → ∃ c, f b = .ok c) ∧ p a = true ∧ f a = .error e := by
  rw [firstError_iff_split]
  constructor
  · rintro ⟨kept, a, rest, hkept, hok, ha⟩
    obtain ⟨before, behind, rfl, rfl, hbehind⟩ := List.filter_eq_append_iff.1 hkept
    obtain ⟨skipped, after, rfl, hskipped, hp, -⟩ := List.filter_eq_cons_iff.1 hbehind
    refine ⟨before ++ skipped, a, after, (List.append_assoc _ _ _).symm, fun b hb hpb => ?_, hp, ha⟩
    rcases List.mem_append.1 hb with hb | hb
    · exact hok b (List.mem_filter.2 ⟨hb, hpb⟩)
    · exact absurd hpb (hskipped b hb)
  · rintro ⟨before, a, after, rfl, hok, hp, ha⟩
    refine ⟨before.filter p, a, after.filter p, ?_, fun b hb => ?_, ha⟩
    · rw [List.filter_append, List.filter_cons_of_pos hp]
    · obtain ⟨hb, hpb⟩ := List.mem_filter.1 hb
      exact hok b hb hpb

/-! ## Leaves -/

theorem mem_leavesOf {a : α} : ∀ {ts : List (Node α)}, a ∈ leavesOf ts ↔ ∃ t ∈ ts, a ∈ t.leaves
  | [] => by simp [leavesOf]
  | t :: ts => by
    rw [leavesOf, List.mem_append, mem_leavesOf]
    simp only [List.mem_cons, exists_eq_or_imp]

mutual

/-- Trees of one shape have as many leaves, which are related one by one. -/
theorem Rel.forall₂_leaves : ∀ {t : Node α} {u : Node β}, Rel R t u →
    List.Forall₂ R t.leaves u.leaves
  | .or ts, .or us, h => by
    rw [leaves, leaves]
    exact (show RelAll _ ts us from h).forall₂_leaves
  | .and ts, .and us, h => by
    rw [leaves, leaves]
    exact (show RelAll _ ts us from h).forall₂_leaves
  | .leaf a, .leaf b, h => by
    rw [leaves, leaves]
    exact .cons h .nil

theorem RelAll.forall₂_leaves : ∀ {ts : List (Node α)} {us : List (Node β)}, RelAll R ts us →
    List.Forall₂ R (leavesOf ts) (leavesOf us)
  | [], [], _ => by
    rw [leavesOf, leavesOf]
    exact .nil
  | t :: ts, u :: us, h => by
    rw [leavesOf, leavesOf]
    exact List.rel_append h.1.forall₂_leaves h.2.forall₂_leaves

end

theorem Rel.exists_leaf {t : Node α} {u : Node β} (h : Rel R t u) :
    ∀ b ∈ u.leaves, ∃ a ∈ t.leaves, R a b :=
  exists_mem_of_forall₂ h.forall₂_leaves.flip

theorem Rel.allOk {f : α → Except ε β} {t : Node α} {u : Node β}
    (h : Rel (fun a b => f a = .ok b) t u) : AllOk f t.leaves := by
  intro a ha
  obtain ⟨b, -, hab⟩ := exists_mem_of_forall₂ h.forall₂_leaves a ha
  exact ⟨b, hab⟩

mutual

theorem traverse_eq_error_iff {f : α → Except ε β} {e : ε} : ∀ {t : Node α},
    t.traverse f = .error e ↔ FirstError f t.leaves e
  | .or ts => by
    rw [traverse, bind_eq_error_iff, leaves, traverseAll_eq_error_iff]
    exact ⟨fun h => h.elim id (by rintro ⟨_, -, ⟨⟩⟩), .inl⟩
  | .and ts => by
    rw [traverse, bind_eq_error_iff, leaves, traverseAll_eq_error_iff]
    exact ⟨fun h => h.elim id (by rintro ⟨_, -, ⟨⟩⟩), .inl⟩
  | .leaf a => by
    rw [traverse, bind_eq_error_iff, leaves]
    constructor
    · rintro (h | ⟨_, -, ⟨⟩⟩)
      exact .inl h
    · rintro (h | ⟨-, h⟩)
      · exact .inl h
      · exact h.elim

theorem traverseAll_eq_error_iff {f : α → Except ε β} {e : ε} : ∀ {ts : List (Node α)},
    traverseAll f ts = .error e ↔ FirstError f (leavesOf ts) e
  | [] => by
    rw [traverseAll, leavesOf]
    exact ⟨nofun, False.elim⟩
  | t :: ts => by
    rw [traverseAll, bind_eq_error_iff, leavesOf, firstError_append, traverse_eq_error_iff]
    simp only [bind_eq_error_iff, traverseAll_eq_error_iff]
    constructor
    · rintro (h | ⟨u, hu, h | ⟨_, -, ⟨⟩⟩⟩)
      · exact .inl h
      · -- the first tree succeeded, and so did each of its leaves
        exact .inr ⟨(traverse_eq_ok_iff.1 hu).allOk, h⟩
    · rintro (h | ⟨hok, h⟩)
      · exact .inl h
      · cases hu : t.traverse f with
        | ok u => exact .inr ⟨u, rfl, .inl h⟩
        | error e' => exact absurd hok (traverse_eq_error_iff.1 hu).not_allOk

end

end Filter.Node

/-! ## Lists -/

section Lists

variable {α β ε : Type} {f : α → Except ε β}

theorem mapM_eq_ok_iff : ∀ {as : List α} {bs : List β},
    as.mapM f = .ok bs ↔ List.Forall₂ (fun a b => f a = .ok b) as bs
  | [], bs => by
    rw [List.mapM_nil, List.forall₂_nil_left_iff]
    exact ⟨fun h => (Except.ok.inj h).symm, fun h => h ▸ rfl⟩
  | a :: as, bs => by
    rw [List.mapM_cons, bind_eq_ok_iff]
    simp only [bind_eq_ok_iff, mapM_eq_ok_iff]
    constructor
    · rintro ⟨b, hb, bs, hbs, ⟨⟩⟩
      exact .cons hb hbs
    · intro h
      cases h with
      | cons hb hbs => exact ⟨_, hb, _, hbs, rfl⟩

theorem mapM_eq_error_iff {e : ε} : ∀ {as : List α},
    as.mapM f = .error e ↔ Filter.Node.FirstError f as e
  | [] => by
    rw [List.mapM_nil]
    exact ⟨nofun, False.elim⟩
  | a :: as => by
    rw [List.mapM_cons, bind_eq_error_iff, Filter.Node.FirstError]
    simp only [bind_eq_error_iff, mapM_eq_error_iff]
    constructor
    · rintro (h | ⟨b, hb, h | ⟨_, -, ⟨⟩⟩⟩)
      · exact .inl h
      · exact .inr ⟨⟨b, hb⟩, h⟩
    · rintro (h | ⟨⟨b, hb⟩, h⟩)
      · exact .inl h
      · exact .inr ⟨b, hb, .inl h⟩

/-- Actions that do the same on every element do the same on the list. -/
theorem mapM_congr {g : α → Except ε β} : ∀ {as : List α}, (∀ a ∈ as, f a = g a) →
    as.mapM f = as.mapM g
  | [], _ => rfl
  | a :: as, h => by
    obtain ⟨ha, has⟩ := List.forall_mem_cons.1 h
    rw [List.mapM_cons, List.mapM_cons, ha, mapM_congr has]

/-- A list of results is there if there is one for each element. -/
theorem exists_mapM_eq_ok_iff {as : List α} :
    (∃ bs, as.mapM f = .ok bs) ↔ Filter.Node.AllOk f as := by
  constructor
  · rintro ⟨bs, h⟩
    have hall := mapM_eq_ok_iff.1 h
    clear h
    induction hall with
    | nil => nofun
    | cons ha _ ih => exact List.forall_mem_cons.2 ⟨⟨_, ha⟩, ih⟩
  · intro hok
    cases h : as.mapM f with
    | ok bs => exact ⟨bs, rfl⟩
    | error e => exact absurd hok (mapM_eq_error_iff.1 h).not_allOk

end Lists

end RecordFilter
