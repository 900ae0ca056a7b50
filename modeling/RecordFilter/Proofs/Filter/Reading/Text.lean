import RecordFilter.Proofs.Filter.Roundtrip

/-!
# Reading texts

What is known of a filter that a text was read as (`readChars_eq_ok_iff`): the text is the tree of
its clauses laid out, and each comparison is what its clause stands for in that text. A text that is
one comparison is read by `read_single`, whatever way its arguments are written.
-/

namespace RecordFilter.Filter

variable {f : Filter} {text : String}

/-- A text is read as a filter exactly if it is blank, or a tree of clauses that stand for the
comparisons of the filter. -/
theorem readChars_eq_ok_iff {whole : List Char} :
    readChars whole = .ok f ↔ Blanks whole [] ∧ f = unrestricted ∨
      ∃ t, LaidOut t whole ∧ t.Rel (fun k c => k.resolve whole = .ok c) f := by
  constructor
  · intro h
    by_cases hblank : Blanks whole []
    · rw [readChars_of_blank hblank] at h
      exact .inl ⟨hblank, (Except.ok.inj h).symm⟩
    · by_cases hlaid : ∃ t, LaidOut t whole
      · obtain ⟨t, ht⟩ := hlaid
        rw [readChars_of_laidOut ht] at h
        exact .inr ⟨t, ht, Node.traverse_eq_ok_iff.1 h⟩
      · obtain ⟨e, he⟩ := readChars_of_not_laidOut hblank fun t ht => hlaid ⟨t, ht⟩
        rw [he] at h
        cases h
  · rintro (⟨hblank, rfl⟩ | ⟨t, ht, hresolve⟩)
    · exact readChars_of_blank hblank
    · rw [readChars_of_laidOut ht]
      exact Node.traverse_eq_ok_iff.2 hresolve

/-- The comparisons of a filter that was read have the shapes of the grammar. -/
theorem wellFormed_of_read (h : read text = .ok f) : ∀ c ∈ f.comparisons, c.WellFormed := by
  rcases readChars_eq_ok_iff.1 h with ⟨-, rfl⟩ | ⟨t, ht, hresolve⟩
  · simp [unrestricted, comparisons, Node.leaves, Node.leavesOf]
  · have hwrites : Writes f text := ⟨t, hresolve.imp fun _ _ => Clause.spells_of_resolve, ht⟩
    exact hwrites.wellFormed.comparisons

/-- A text is read as the filter that it is a way to write. -/
theorem Writes.exists_read (h : Writes f text) :
    ∃ g : Filter, read text = .ok g ∧ g.Rel Comparison.Alike f := by
  obtain ⟨t, hspells, ht⟩ := h
  have hresolve := hspells.imp fun k c hk => hk.resolve text.toList
  obtain ⟨g, hg, halike⟩ := hresolve.exists_between
  exact ⟨g, readChars_eq_ok_iff.2 (.inr ⟨t, ht, hg⟩), halike⟩

/-- A text that is one clause is read as a filter of the comparison that the clause spells. -/
theorem Clause.Written.exists_read {k : Clause} {s : List Char} {c : Comparison}
    (h : k.Written s []) (hk : k.Spells c) :
    ∃ d, readChars s = .ok (.or [.and [.leaf d]]) ∧ d.Alike c := by
  obtain ⟨d, hresolve, halike⟩ := hk.resolve s
  have hlaid : LaidOut (.or [.and [.leaf k]]) s :=
    ⟨[[.leaf k]], [], rfl, .single (.clause h), .refl⟩
  exact ⟨d, readChars_eq_ok_iff.2 (.inr ⟨_, hlaid, ⟨hresolve, trivial⟩, trivial⟩), halike⟩

/-- A selector, a comparator and arguments are read as a filter of this one comparison. -/
theorem read_single {selector token : String} {comparator : Comparator} {arguments : List Literal}
    {s : List Char} (hselector : IsSelector selector.toList)
    (htoken : Comparator.ofToken? token = some comparator) (harguments : ∀ l ∈ arguments, l.Matches)
    (h : Arguments arguments s []) :
    ∃ span, read (selector ++ token ++ String.ofList s) =
      .ok (.or [.and [.leaf ⟨selector, comparator, arguments, span⟩]]) := by
  have hwhole : (selector ++ token ++ String.ofList s).toList =
      selector.toList ++ (token.toList ++ s) := by
    rw [String.toList_append, String.toList_append, String.toList_ofList, List.append_assoc]
  rw [read, hwhole]
  let k : Clause :=
    { selector := selector.toList, token := token.toList, arguments
      start := selector.toList ++ (token.toList ++ s), tokenStart := token.toList ++ s, stop := [] }
  have hspells : k.Spells ⟨selector, comparator, arguments, ⟨0, 0, 0, 0⟩⟩ :=
    ⟨rfl, by rw [String.ofList_toList]; exact htoken, rfl⟩
  have hwritten : k.Written k.start [] :=
    ⟨hspells.wellFormed ⟨hselector, harguments⟩, token.toList ++ s, s, .refl, rfl, .refl, rfl, h,
      rfl⟩
  obtain ⟨⟨selector', comparator', arguments', span⟩, hread, rfl, rfl, rfl⟩ :=
    hwritten.exists_read hspells
  exact ⟨span, hread⟩

end RecordFilter.Filter
