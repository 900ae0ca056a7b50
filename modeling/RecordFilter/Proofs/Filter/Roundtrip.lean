import RecordFilter.Proofs.Filter.Reading.Tree

/-!
# Writing and reading

Every well-formed filter can be written, and however it is written, reading gives it back, apart
from the places of its comparisons (`read_of_writes`).

That it can be written needs one layout for each tree: arguments in parentheses, combinators as
signs, and no blanks. Texts are built from their end, so each lemma is about any text that follows.
-/

namespace RecordFilter.Filter

open Text

/-! ## Clauses and the comparisons they spell -/

/-- The comparisons agree, apart from their places. -/
structure Comparison.Alike (c d : Comparison) : Prop where
  selector : c.selector = d.selector
  comparator : c.comparator = d.comparator
  arguments : c.arguments = d.arguments

theorem Clause.Spells.resolve {k : Clause} {c : Comparison} (h : k.Spells c) (whole : List Char) :
    ∃ d, k.resolve whole = .ok d ∧ d.Alike c := by
  refine ⟨⟨String.ofList k.selector, c.comparator, k.arguments, .between whole k.start k.stop⟩,
    ?_, ?_, rfl, h.arguments⟩
  · simp only [Clause.resolve, h.comparator]
  · rw [h.selector, String.ofList_toList]

theorem Clause.spells_of_resolve {k : Clause} {c : Comparison} {whole : List Char}
    (h : k.resolve whole = .ok c) : k.Spells c := by
  dsimp only [Clause.resolve] at h
  split at h
  · next comparator hcomparator =>
    cases h
    exact ⟨String.toList_ofList.symm, hcomparator, rfl⟩
  · cases h

/-- A clause that spells a well-formed comparison is well-formed, whatever spelling it has. -/
theorem Clause.Spells.wellFormed {k : Clause} {c : Comparison} (h : k.Spells c)
    (hc : c.WellFormed) : k.WellFormed :=
  ⟨h.selector ▸ hc.selector, Comparator.isComparator_of_ofToken? h.comparator,
    h.arguments ▸ hc.arguments⟩

/-! ## A layout for every filter -/

theorem exists_argumentList (l : Literal) (rest : List Char) :
    ∀ ls : List Literal, ∃ s, ArgumentList (l :: ls) s rest
  | [] => ⟨l.text.toList ++ ')' :: rest, .last .refl .refl⟩
  | l' :: ls => by
    obtain ⟨s, hs⟩ := exists_argumentList l' rest ls
    exact ⟨l.text.toList ++ ',' :: s, .more .refl .refl hs⟩

theorem exists_arguments {rest : List Char} (hrest : Stops isSpace rest) (ls : List Literal) :
    ∃ s, Arguments ls s rest := by
  cases ls with
  | nil => exact ⟨rest, .none .refl hrest⟩
  | cons l ls =>
    obtain ⟨s, hs⟩ := exists_argumentList l rest ls
    exact ⟨'(' :: s, .list .refl hs⟩

theorem Comparator.ofToken?_spelling (c : Comparator) : ofToken? c.spelling = some c := by
  cases c <;> decide

/-- A tree can be written before any text that does not begin with a blank. -/
def Writable (u : Node Comparison) : Prop :=
  ∀ rest, Stops isSpace rest → ∃ t s, t.Rel Clause.Spells u ∧ Constraint t s rest

theorem writable_leaf {c : Comparison} (hc : c.WellFormed) : Writable (.leaf c) := by
  intro rest hrest
  obtain ⟨s, hs⟩ := exists_arguments hrest c.arguments
  let token := c.comparator.spelling.toList
  let k : Clause :=
    { selector := c.selector.toList, token, arguments := c.arguments
      start := c.selector.toList ++ (token ++ s), tokenStart := token ++ s, stop := rest }
  have hk : k.Spells c :=
    ⟨rfl, by rw [String.ofList_toList]; exact c.comparator.ofToken?_spelling, rfl⟩
  exact ⟨.leaf k, k.start, hk,
    .clause ⟨hk.wellFormed hc, token ++ s, s, .refl, rfl, .refl, rfl, hs, rfl⟩⟩

/-- A conjunction can be written before whatever its last constraint can be written before. -/
theorem exists_conjunction {alternatives : List (List (Node Clause))} {next rest : List Char}
    (hnext : Stops isSpace next)
    (hlast : ∀ t s, Constraint t s next → Alternatives ([t] :: alternatives) s rest)
    (u : Node Comparison) (hu : Writable u) :
    ∀ us : List (Node Comparison), (∀ u ∈ us, Writable u) →
      ∃ ts s, Node.RelAll Clause.Spells ts (u :: us) ∧ Alternatives (ts :: alternatives) s rest
  | [], _ => by
    obtain ⟨t, s, ht, hs⟩ := hu next hnext
    exact ⟨[t], s, ⟨ht, trivial⟩, hlast t s hs⟩
  | u' :: us, hus => by
    obtain ⟨hu', hus⟩ := List.forall_mem_cons.1 hus
    -- the rest of the conjunction comes first: it is what the first constraint stands before
    obtain ⟨ts, v, hts, hv⟩ := exists_conjunction hnext hlast u' hu' us hus
    obtain ⟨t, s, ht, hs⟩ := hu (';' :: v) (stops_cons.2 rfl)
    exact ⟨t :: ts, s, ⟨ht, hts⟩, .and hs ⟨[';'], .inl rfl, .refl⟩ hv⟩

/-- A conjunction of one or more constraints that can be written. -/
def WritableConjunction (u : Node Comparison) : Prop :=
  ∃ c cs, u = .and (c :: cs) ∧ Writable c ∧ ∀ c ∈ cs, Writable c

theorem exists_alternatives {rest : List Char} (hrest : Stops isSpace rest)
    (u : Node Comparison) (hu : WritableConjunction u) :
    ∀ us : List (Node Comparison), (∀ u ∈ us, WritableConjunction u) →
      ∃ alternatives s, Node.RelAll Clause.Spells (alternatives.map .and) (u :: us) ∧
        Alternatives alternatives s rest
  | [], _ => by
    obtain ⟨c, cs, rfl, hc, hcs⟩ := hu
    have hlast : ∀ t s, Constraint t s rest → Alternatives [[t]] s rest := fun _ _ hs => .single hs
    obtain ⟨ts, s, hts, hs⟩ := exists_conjunction hrest hlast c hc cs hcs
    exact ⟨[ts], s, ⟨hts, trivial⟩, hs⟩
  | u' :: us, hus => by
    obtain ⟨c, cs, rfl, hc, hcs⟩ := hu
    obtain ⟨hu', hus⟩ := List.forall_mem_cons.1 hus
    obtain ⟨alternatives, v, hrel, hv⟩ := exists_alternatives hrest u' hu' us hus
    have hlast : ∀ t s, Constraint t s (',' :: v) → Alternatives ([t] :: alternatives) s rest :=
      fun _ _ hs => .or hs ⟨[','], .inl rfl, .refl⟩ hv
    obtain ⟨ts, s, hts, hs⟩ := exists_conjunction (stops_cons.2 rfl) hlast c hc cs hcs
    exact ⟨ts :: alternatives, s, ⟨hts, hrel⟩, hs⟩

mutual

theorem Node.IsAlternatives.exists_layout : ∀ {u : Node Comparison}, u.IsAlternatives →
    (∀ c ∈ u.leaves, c.WellFormed) → ∀ {rest : List Char}, Stops isSpace rest →
      ∃ alternatives s, (Node.or (alternatives.map .and)).Rel Clause.Spells u ∧
        Alternatives alternatives s rest
  | .or [], .mk hne _, _, _, _ => absurd rfl hne
  | .or (u :: us), .mk _ h, hwell, rest, hrest => by
    have hall : ∀ v ∈ u :: us, WritableConjunction v := by
      intro v hv
      refine (h v hv).writable ?_
      intro c hc
      rw [leaves] at hwell
      exact hwell c (mem_leavesOf.2 ⟨v, hv, hc⟩)
    obtain ⟨hu, hus⟩ := List.forall_mem_cons.1 hall
    exact exists_alternatives hrest u hu us hus

theorem Node.IsConjunction.writable : ∀ {u : Node Comparison}, u.IsConjunction →
    (∀ c ∈ u.leaves, c.WellFormed) → WritableConjunction u
  | .and [], .mk hne _, _ => absurd rfl hne
  | .and (u :: us), .mk _ h, hwell => by
    have hall : ∀ v ∈ u :: us, Writable v := by
      intro v hv
      refine (h v hv).writable ?_
      intro c hc
      rw [leaves] at hwell
      exact hwell c (mem_leavesOf.2 ⟨v, hv, hc⟩)
    obtain ⟨hu, hus⟩ := List.forall_mem_cons.1 hall
    exact ⟨u, us, rfl, hu, hus⟩

theorem Node.IsConstraint.writable : ∀ {u : Node Comparison}, u.IsConstraint →
    (∀ c ∈ u.leaves, c.WellFormed) → Writable u
  | _, .leaf c, hwell => writable_leaf (hwell c (by rw [leaves]; exact List.mem_singleton_self c))
  | _, .group h, hwell => by
    intro rest hrest
    have hclose : Stops isSpace (')' :: rest) := stops_cons.2 rfl
    obtain ⟨alternatives, s, hrel, hs⟩ := h.exists_layout hwell hclose
    exact ⟨.or (alternatives.map .and), '(' :: s, hrel, .group .refl hs .refl⟩

end

theorem WellFormed.exists_writes {f : Filter} (hf : WellFormed f) : ∃ text, Writes f text := by
  obtain ⟨alternatives, s, hrel, hs⟩ := hf.shape.exists_layout hf.comparisons stops_nil
  refine ⟨String.ofList s, _, hrel, alternatives, [], rfl, ?_, .refl⟩
  rwa [String.toList_ofList]

theorem Writes.wellFormed {f : Filter} {text : String} (h : Writes f text) : WellFormed f := by
  obtain ⟨t, hspells, hlaid⟩ := h
  refine ⟨hlaid.isAlternatives.of_rel hspells, ?_⟩
  intro c hc
  obtain ⟨k, hk, hkc⟩ := hspells.exists_leaf c hc
  obtain ⟨_, _, -, hwritten⟩ := hlaid.inOrder.exists_written hk
  have hwell := hwritten.wellFormed
  exact ⟨hkc.selector ▸ hwell.selector, hkc.arguments ▸ hwell.arguments⟩

/-! ## Reading what was written -/

/-- **Reading undoes writing.** A well-formed filter can be written, and from every way to write it,
it is read back, apart from the places of its comparisons. -/
theorem read_of_writes {f : Filter} (hf : WellFormed f) :
    (∃ text, Writes f text) ∧
      ∀ text, Writes f text → ∃ g : Filter, read text = .ok g ∧ g.Rel Comparison.Alike f := by
  refine ⟨hf.exists_writes, ?_⟩
  rintro text ⟨t, hspells, hlaid⟩
  -- the tree of clauses is read back, and its comparators stand for those of the filter
  have hresolve : t.Rel
      (fun k c => ∃ d, k.resolve text.toList = .ok d ∧ d.Alike c) f :=
    hspells.imp fun k c h => h.resolve text.toList
  obtain ⟨g, hg, halike⟩ := hresolve.exists_between
  refine ⟨g, ?_, halike⟩
  rw [read, readChars_of_laidOut hlaid]
  exact Node.traverse_eq_ok_iff.2 hg

/-- A combinator as a word before a group, and an argument with the letters of one. -/
theorem read_of_writes_words :
    ∃ g : Filter, read "Age=GT=18 AND(Name==or)" = .ok g ∧
      g.Rel Comparison.Alike (.or [.and [.leaf ⟨"Age", .gt, [.number "18"], ⟨0, 9, 1, 1⟩⟩,
        .or [.and [.leaf ⟨"Name", .eq, [.bare "or"], ⟨14, 22, 1, 15⟩⟩]]]]) := by
  have hAge : Comparison.WellFormed ⟨"Age", .gt, [.number "18"], ⟨0, 9, 1, 1⟩⟩ :=
    ⟨⟨'A', ['g', 'e'], rfl, rfl, run_of_all rfl⟩,
      List.forall_mem_singleton.2 (isNumber_iff.1 rfl)⟩
  have hName : Comparison.WellFormed ⟨"Name", .eq, [.bare "or"], ⟨14, 22, 1, 15⟩⟩ :=
    ⟨⟨'N', ['a', 'm', 'e'], rfl, rfl, run_of_all rfl⟩,
      List.forall_mem_singleton.2 ⟨⟨by decide, run_of_all rfl⟩, mt isDate_iff.2 nofun,
        mt isNumber_iff.2 nofun⟩⟩
  let age : Clause := ⟨"Age".toList, "=GT=".toList, [.number "18"],
    "Age=GT=18 AND(Name==or)".toList, "=GT=18 AND(Name==or)".toList, " AND(Name==or)".toList⟩
  let name : Clause := ⟨"Name".toList, "==".toList, [.bare "or"], "Name==or)".toList,
    "==or)".toList, ")".toList⟩
  have hage : age.Spells ⟨"Age", .gt, [.number "18"], ⟨0, 9, 1, 1⟩⟩ := ⟨rfl, by decide, rfl⟩
  have hname : name.Spells ⟨"Name", .eq, [.bare "or"], ⟨14, 22, 1, 15⟩⟩ := ⟨rfl, by decide, rfl⟩
  have hageWritten : age.Written "Age=GT=18 AND(Name==or)".toList " AND(Name==or)".toList :=
    ⟨hage.wellFormed hAge, "=GT=18 AND(Name==or)".toList, "18 AND(Name==or)".toList, .refl, rfl,
      .refl, rfl, .one .refl ⟨fun _ => stops_cons.2 rfl, by intro c; cases c <;> decide⟩, rfl⟩
  have hnameWritten : name.Written "Name==or)".toList ")".toList :=
    ⟨hname.wellFormed hName, "==or)".toList, "or)".toList, .refl, rfl,
      .refl, rfl, .one .refl ⟨fun _ => stops_cons.2 rfl, by intro c; cases c <;> decide⟩, rfl⟩
  refine (read_of_writes ⟨?_, ?_⟩).2 _ ⟨.or [.and [.leaf age, .or [.and [.leaf name]]]], ?_, ?_⟩
  · refine .mk (List.cons_ne_nil _ _) (List.forall_mem_singleton.2 (.mk (List.cons_ne_nil _ _) ?_))
    refine List.forall_mem_cons.2 ⟨.leaf _, List.forall_mem_singleton.2 (.group ?_)⟩
    refine .mk (List.cons_ne_nil _ _) (List.forall_mem_singleton.2 (.mk (List.cons_ne_nil _ _) ?_))
    exact List.forall_mem_singleton.2 (.leaf _)
  · intro c hc
    simp [comparisons, Node.leaves, Node.leavesOf] at hc
    rcases hc with rfl | rfl
    · exact hAge
    · exact hName
  · exact ⟨⟨hage, ⟨⟨hname, trivial⟩, trivial⟩, trivial⟩, trivial⟩
  · have hgroup : Constraint (.or [.and [.leaf name]]) "(Name==or)".toList [] :=
      .group .refl (.single (.clause hnameWritten)) .refl
    have hand : Joint .and " AND(Name==or)".toList "(Name==or)".toList :=
      ⟨['A', 'N', 'D'], .inr ⟨rfl, rfl⟩, [' '], run_of_all rfl, rfl⟩
    exact ⟨[[.leaf age, .or [.and [.leaf name]]]], [], rfl,
      .and (.clause hageWritten) hand (.single hgroup), .refl⟩

end RecordFilter.Filter
