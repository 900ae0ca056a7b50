import RecordFilter.Filter.Reader
import RecordFilter.Proofs.Filter.Literals
import RecordFilter.Proofs.Filter.Traverse

/-!
# How filters are written

The grammar of filters as a relation between trees and texts, apart from the reader. A relation
`R x s rest` says that `x` is written at the beginning of `s`, after any blanks, and that `rest` is
what follows. Nothing is said about how a text is to be taken apart: all spellings of a comparator
and of a combinator, all blanks between tokens, and both ways to write a single argument are
allowed, as long as words do not run together.

The leaves of these trees are clauses, which keep the spelling of their comparator and the places of
their parts. A filter is written by every tree of clauses that spells it (`Writes`).
-/

namespace RecordFilter.Filter

open Text

variable {α β : Type}

/-! ## Comparisons -/

/-- Arguments joined by commas, up to and with a closing parenthesis. -/
inductive ArgumentList : List Literal → List Char → List Char → Prop
  | last {l : Literal} {s t rest : List Char} (hl : Blanks s (l.text.toList ++ t))
      (hclose : Blanks t (')' :: rest)) : ArgumentList [l] s rest
  | more {l : Literal} {ls : List Literal} {s t u rest : List Char}
      (hl : Blanks s (l.text.toList ++ t)) (hcomma : Blanks t (',' :: u))
      (hls : ArgumentList ls u rest) : ArgumentList (l :: ls) s rest

/-- What follows an argument without parentheses. A word has to end there, and a word with the
letters of a combinator must not be one: neither a blank nor an opening parenthesis follows. -/
def Literal.StandsAlone (l : Literal) (rest : List Char) : Prop :=
  (l.Unquoted → Stops isWordChar rest) ∧
    ∀ c : Combinator, lower l.text.toList = c.word → endsKeyword rest = false

/-- The arguments of a comparison: nothing, one argument, or a list in parentheses. Where there is
no argument, the blanks still belong to the comparison. -/
inductive Arguments : List Literal → List Char → List Char → Prop
  | none {s rest : List Char} (hs : Blanks s rest) (hrest : Stops isSpace rest) :
      Arguments [] s rest
  | one {l : Literal} {s rest : List Char} (hl : Blanks s (l.text.toList ++ rest))
      (hrest : l.StandsAlone rest) : Arguments [l] s rest
  | list {ls : List Literal} {s t rest : List Char} (hopen : Blanks s ('(' :: t))
      (hls : ArgumentList ls t rest) : Arguments ls s rest

/-- The tokens of a clause are tokens of the grammar; any letters make a comparator. -/
structure Clause.WellFormed (k : Clause) : Prop where
  selector : IsSelector k.selector
  token : IsComparator k.token
  arguments : ∀ l ∈ k.arguments, l.Matches

/-- A clause is its selector, its comparator and its arguments, and it knows where they are. -/
structure Clause.Written (k : Clause) (s rest : List Char) : Prop where
  wellFormed : k.WellFormed
  parts : ∃ t u, Blanks s k.start ∧ k.start = k.selector ++ t ∧ Blanks t k.tokenStart ∧
    k.tokenStart = k.token ++ u ∧ Arguments k.arguments u rest ∧ k.stop = rest

/-! ## Trees -/

namespace Node

mutual

/-- An alternative of one or more conjunctions. -/
inductive IsAlternatives : Node α → Prop
  | mk {ts : List (Node α)} (hne : ts ≠ []) (h : ∀ t ∈ ts, IsConjunction t) :
      IsAlternatives (.or ts)

/-- A conjunction of one or more constraints. -/
inductive IsConjunction : Node α → Prop
  | mk {ts : List (Node α)} (hne : ts ≠ []) (h : ∀ t ∈ ts, IsConstraint t) :
      IsConjunction (.and ts)

/-- A leaf, or an alternative inside a conjunction. -/
inductive IsConstraint : Node α → Prop
  | leaf (a : α) : IsConstraint (.leaf a)
  | group {t : Node α} (h : IsAlternatives t) : IsConstraint t

end

end Node

/-- A combinator between two constraints. -/
def Joint (c : Combinator) (s rest : List Char) : Prop :=
  ∃ w, c.SpelledBefore w rest ∧ Blanks s (w ++ rest)

mutual

/-- A constraint is a clause, or alternatives in parentheses. -/
inductive Constraint : Node Clause → List Char → List Char → Prop
  | clause {k : Clause} {s rest : List Char} (h : k.Written s rest) : Constraint (.leaf k) s rest
  | group {alternatives : List (List (Node Clause))} {s t u rest : List Char}
      (hopen : Blanks s ('(' :: t)) (h : Alternatives alternatives t u)
      (hclose : Blanks u (')' :: rest)) : Constraint (.or (alternatives.map .and)) s rest

/-- Alternatives of conjunctions of constraints, with a combinator between any two neighbours. -/
inductive Alternatives : List (List (Node Clause)) → List Char → List Char → Prop
  | single {t : Node Clause} {s rest : List Char} (h : Constraint t s rest) :
      Alternatives [[t]] s rest
  | and {t : Node Clause} {conjunction : List (Node Clause)}
      {alternatives : List (List (Node Clause))} {s u v rest : List Char}
      (h : Constraint t s u) (hand : Joint .and u v)
      (hmore : Alternatives (conjunction :: alternatives) v rest) :
      Alternatives ((t :: conjunction) :: alternatives) s rest
  | or {t : Node Clause} {alternatives : List (List (Node Clause))} {s u v rest : List Char}
      (h : Constraint t s u) (hor : Joint .or u v) (hmore : Alternatives alternatives v rest) :
      Alternatives ([t] :: alternatives) s rest

end

/-- A text is the alternatives of a tree, with blanks around them. -/
def LaidOut (t : Node Clause) (text : List Char) : Prop :=
  ∃ alternatives rest, t = .or (alternatives.map .and) ∧ Alternatives alternatives text rest ∧
    Blanks rest []

/-! ## Blanks before a construct -/

theorem Clause.Written.of_blanks {k : Clause} {s t rest : List Char} (hs : Blanks s t)
    (h : k.Written t rest) : k.Written s rest := by
  obtain ⟨hwell, u, v, hstart, hparts⟩ := h
  exact ⟨hwell, u, v, hs.trans hstart, hparts⟩

theorem Constraint.of_blanks {c : Node Clause} {s t rest : List Char} (hs : Blanks s t)
    (h : Constraint c t rest) : Constraint c s rest := by
  cases h with
  | clause h => exact .clause (h.of_blanks hs)
  | group hopen h hclose => exact .group (hs.trans hopen) h hclose

theorem Alternatives.of_blanks {alternatives : List (List (Node Clause))} {s t rest : List Char}
    (hs : Blanks s t) (h : Alternatives alternatives t rest) :
    Alternatives alternatives s rest := by
  cases h with
  | single h => exact .single (h.of_blanks hs)
  | and h hand hmore => exact .and (h.of_blanks hs) hand hmore
  | or h hor hmore => exact .or (h.of_blanks hs) hor hmore

/-! ## Filters -/

/-- A clause spells a comparison, which knows the comparator but not its spelling. -/
structure Clause.Spells (k : Clause) (c : Comparison) : Prop where
  selector : k.selector = c.selector.toList
  comparator : Comparator.ofToken? (String.ofList k.token) = some c.comparator
  arguments : k.arguments = c.arguments

/-- A text is a way to write a filter. -/
def Writes (f : Filter) (text : String) : Prop :=
  ∃ t : Node Clause, t.Rel Clause.Spells f ∧ LaidOut t text.toList

/-- The selector and the arguments of a comparison are tokens of the grammar. -/
structure Comparison.WellFormed (c : Comparison) : Prop where
  selector : IsSelector c.selector.toList
  arguments : ∀ l ∈ c.arguments, l.Matches

/-- A filter that a text can stand for: alternatives and conjunctions in turn, none of them empty,
and comparisons whose parts are tokens of the grammar. -/
structure WellFormed (f : Filter) : Prop where
  shape : f.IsAlternatives
  comparisons : ∀ c ∈ f.comparisons, c.WellFormed

/-! ## The shape of what is written -/

theorem Node.IsAlternatives.of_map {alternatives : List (List (Node α))} (hne : alternatives ≠ [])
    (h : ∀ a ∈ alternatives, a ≠ [] ∧ ∀ t ∈ a, t.IsConstraint) :
    (Node.or (alternatives.map .and)).IsAlternatives := by
  refine .mk (mt List.map_eq_nil_iff.1 hne) ?_
  intro t ht
  obtain ⟨a, ha, rfl⟩ := List.mem_map.1 ht
  exact .mk (h a ha).1 (h a ha).2

mutual

theorem Constraint.isConstraint : ∀ {t : Node Clause} {s rest : List Char},
    Constraint t s rest → t.IsConstraint
  | _, _, _, .clause _ => .leaf _
  | _, _, _, .group _ h _ => .group (.of_map h.isConstraint.1 h.isConstraint.2)

theorem Alternatives.isConstraint : ∀ {alternatives : List (List (Node Clause))}
    {s rest : List Char}, Alternatives alternatives s rest →
    alternatives ≠ [] ∧ ∀ a ∈ alternatives, a ≠ [] ∧ ∀ t ∈ a, t.IsConstraint
  | _, _, _, .single h => by
    have ht := h.isConstraint
    simpa using ht
  | _, _, _, .and h _ hmore => by
    have ht := h.isConstraint
    obtain ⟨-, hall⟩ := hmore.isConstraint
    rw [List.forall_mem_cons] at hall ⊢
    refine ⟨List.cons_ne_nil _ _, ⟨List.cons_ne_nil _ _, ?_⟩, hall.2⟩
    exact List.forall_mem_cons.2 ⟨ht, hall.1.2⟩
  | _, _, _, .or h _ hmore => by
    have ht := h.isConstraint
    obtain ⟨-, hall⟩ := hmore.isConstraint
    refine ⟨List.cons_ne_nil _ _, List.forall_mem_cons.2 ⟨⟨List.cons_ne_nil _ _, ?_⟩, hall⟩⟩
    exact List.forall_mem_singleton.2 ht

end

theorem LaidOut.isAlternatives {t : Node Clause} {text : List Char} (h : LaidOut t text) :
    t.IsAlternatives := by
  obtain ⟨alternatives, rest, rfl, h, -⟩ := h
  exact .of_map h.isConstraint.1 h.isConstraint.2

namespace Node

variable {R : α → β → Prop}

mutual

theorem IsAlternatives.of_rel : ∀ {t : Node α} {u : Node β}, t.IsAlternatives → t.Rel R u →
    u.IsAlternatives
  | .or ts, .or us, .mk hne h, hr => by
    have hr : RelAll R ts us := hr
    refine .mk (hr.ne_nil hne) ?_
    intro u hu
    obtain ⟨t, ht, htu⟩ := hr.exists_of_mem hu
    exact (h t ht).of_rel htu

theorem IsConjunction.of_rel : ∀ {t : Node α} {u : Node β}, t.IsConjunction → t.Rel R u →
    u.IsConjunction
  | .and ts, .and us, .mk hne h, hr => by
    have hr : RelAll R ts us := hr
    refine .mk (hr.ne_nil hne) ?_
    intro u hu
    obtain ⟨t, ht, htu⟩ := hr.exists_of_mem hu
    exact (h t ht).of_rel htu

theorem IsConstraint.of_rel : ∀ {t : Node α} {u : Node β}, t.IsConstraint → t.Rel R u →
    u.IsConstraint
  | _, .leaf b, .leaf _, _ => .leaf b
  | _, _, .group h, hr => .group (h.of_rel hr)

end

end Node

/-! ## Clauses in order -/

theorem Blanks.suffix {s t : List Char} (h : Blanks s t) : t <:+ s := by
  obtain ⟨w, -, rfl⟩ := h
  exact List.suffix_append w t

theorem Joint.suffix {c : Combinator} {s t : List Char} (h : Joint c s t) : t <:+ s := by
  obtain ⟨w, -, h⟩ := h
  exact (List.suffix_append w t).trans h.suffix

theorem ArgumentList.closing_suffix {ls : List Literal} {s rest : List Char}
    (h : ArgumentList ls s rest) : ')' :: rest <:+ s := by
  induction h with
  | last hl hclose => exact hclose.suffix.trans ((List.suffix_append _ _).trans hl.suffix)
  | more hl hcomma _ ih =>
    have hrest := ih.trans ((List.suffix_cons _ _).trans hcomma.suffix)
    exact hrest.trans ((List.suffix_append _ _).trans hl.suffix)

theorem ArgumentList.suffix {ls : List Literal} {s rest : List Char} (h : ArgumentList ls s rest) :
    rest <:+ s := (List.suffix_cons ')' rest).trans h.closing_suffix

theorem Arguments.suffix {ls : List Literal} {s rest : List Char} (h : Arguments ls s rest) :
    rest <:+ s := by
  cases h with
  | none hs _ => exact hs.suffix
  | one hl _ => exact (List.suffix_append _ _).trans hl.suffix
  | list hopen hls => exact hls.suffix.trans ((List.suffix_cons _ _).trans hopen.suffix)

namespace Clause.Written

variable {k : Clause} {s rest : List Char}

theorem tokenStart_suffix (h : k.Written s rest) : k.tokenStart <:+ s := by
  obtain ⟨-, t, u, hs, hstart, ht, -⟩ := h
  rw [hstart] at hs
  exact ht.suffix.trans ((List.suffix_append _ t).trans hs.suffix)

theorem exists_tokenStart_eq (h : k.Written s rest) :
    ∃ u, k.tokenStart = k.token ++ u ∧ rest <:+ u := by
  obtain ⟨-, t, u, -, -, -, htokenStart, hls, -⟩ := h
  exact ⟨u, htokenStart, hls.suffix⟩

theorem suffix_tokenStart (h : k.Written s rest) : rest <:+ k.tokenStart := by
  obtain ⟨u, htokenStart, hrest⟩ := h.exists_tokenStart_eq
  rw [htokenStart]
  exact hrest.trans (List.suffix_append _ u)

theorem suffix_start (h : k.Written s rest) : rest <:+ k.start := by
  have hrest := h.suffix_tokenStart
  obtain ⟨-, t, u, -, hstart, ht, -⟩ := h
  rw [hstart]
  exact hrest.trans (ht.suffix.trans (List.suffix_append _ t))

/-- The blanks before a clause do not matter. -/
theorem written_start (h : k.Written s rest) : k.Written k.start rest := by
  obtain ⟨hwell, t, u, -, hparts⟩ := h
  exact ⟨hwell, t, u, .refl, hparts⟩

theorem stop_eq (h : k.Written s rest) : k.stop = rest := by
  obtain ⟨-, t, u, -, -, -, -, -, hstop⟩ := h
  exact hstop

end Clause.Written

/-- Clauses one behind another in a text, and what is left behind the last of them. -/
inductive InOrder : List Clause → List Char → List Char → Prop
  | nil {s rest : List Char} (h : rest <:+ s) : InOrder [] s rest
  | cons {k : Clause} {ks : List Clause} {s t u rest : List Char} (hs : t <:+ s)
      (h : k.Written t u) (hks : InOrder ks u rest) : InOrder (k :: ks) s rest

namespace InOrder

variable {k : Clause} {ks ls : List Clause} {s t rest : List Char}

theorem of_suffix (hs : s <:+ t) (h : InOrder ks s rest) : InOrder ks t rest := by
  cases h with
  | nil h => exact .nil (h.trans hs)
  | cons hu h hks => exact .cons (hu.trans hs) h hks

theorem append (h : InOrder ks s t) (hls : InOrder ls t rest) : InOrder (ks ++ ls) s rest := by
  induction h with
  | nil h => exact hls.of_suffix h
  | cons hu h _ ih => exact .cons hu h (ih hls)

theorem single (h : k.Written s rest) : InOrder [k] s rest :=
  .cons List.suffix_rfl h (.nil List.suffix_rfl)

theorem exists_written (h : InOrder ks s rest) (hk : k ∈ ks) :
    ∃ t u, t <:+ s ∧ k.Written t u := by
  induction h with
  | nil _ => cases hk
  | cons hs hj _ ih =>
    rcases List.mem_cons.1 hk with rfl | hk
    · exact ⟨_, _, hs, hj⟩
    · obtain ⟨t, u, ht, hk⟩ := ih hk
      exact ⟨t, u, ht.trans (hj.suffix_tokenStart.trans (hj.tokenStart_suffix.trans hs)), hk⟩

/-- The comparator of a clause begins behind those of the clauses before it. -/
theorem tokenStart_suffix {j : Clause} (h : InOrder (ks ++ k :: ls) s rest) (hj : j ∈ ls) :
    j.tokenStart <:+ k.tokenStart := by
  induction ks generalizing s with
  | nil =>
    cases h with
    | cons _ hk hls =>
      obtain ⟨t, u, ht, hj⟩ := hls.exists_written hj
      exact hj.tokenStart_suffix.trans (ht.trans hk.suffix_tokenStart)
  | cons i ks ih =>
    cases h with
    | cons _ _ hks => exact ih hks

end InOrder

mutual

theorem Constraint.inOrder : ∀ {t : Node Clause} {s rest : List Char}, Constraint t s rest →
    InOrder t.leaves s rest
  | _, _, _, .clause h => by
    rw [Node.leaves]
    exact .single h
  | _, _, _, .group hopen h hclose => by
    rw [Node.leaves]
    have hs := (List.suffix_cons _ _).trans hopen.suffix
    have hrest := (List.suffix_cons _ _).trans hclose.suffix
    have hall := (h.inOrder.of_suffix hs).append (.nil hrest)
    rwa [List.append_nil] at hall

theorem Alternatives.inOrder : ∀ {alternatives : List (List (Node Clause))} {s rest : List Char},
    Alternatives alternatives s rest →
    InOrder (Node.leavesOf (alternatives.map .and)) s rest
  | _, _, _, .single h => by simpa [Node.leavesOf, Node.leaves] using h.inOrder
  | _, _, _, .and h hand hmore => by
    have hall := h.inOrder.append (hmore.inOrder.of_suffix hand.suffix)
    simpa [Node.leavesOf, Node.leaves] using hall
  | _, _, _, .or h hor hmore => by
    have hall := h.inOrder.append (hmore.inOrder.of_suffix hor.suffix)
    simpa [Node.leavesOf, Node.leaves] using hall

end

theorem LaidOut.inOrder {t : Node Clause} {text : List Char} (h : LaidOut t text) :
    InOrder t.leaves text [] := by
  obtain ⟨alternatives, rest, rfl, h, hrest⟩ := h
  have hall := h.inOrder.append (.nil hrest.suffix)
  rw [List.append_nil] at hall
  rwa [Node.leaves]

end RecordFilter.Filter
