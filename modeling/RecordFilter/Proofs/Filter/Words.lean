import RecordFilter.Proofs.Filter.Greedy
import RecordFilter.Proofs.Filter.Places

/-!
# Words as arguments

An argument without quotes is a whole word of the text: the characters before and behind it belong
to no word. What it is goes by the whole word, so no word is split into an argument and a remainder
(`read_words_whole`).

The arguments of a comparison stand behind its comparator, one behind another, and nothing between
them or behind the last one belongs to a word. `Row` says so of a part of a text.
-/

namespace RecordFilter.Filter

open Text

/-! ## Whole words -/

/-- A word in a text, between what stands before it and what stands behind it, that goes on in
neither direction. -/
structure WholeWord (before w after : List Char) : Prop where
  word : IsWord w
  starts : Stops isWordChar before.reverse
  ends : Stops isWordChar after

/-- What an argument without quotes is goes by the whole of its text. -/
structure Literal.ByWholeText (l : Literal) : Prop where
  date_iff : (∃ text, l = .date text) ↔ IsDate l.text.toList
  number_iff : (∃ text, l = .number text) ↔ IsNumber l.text.toList
  bare_iff : (∃ text, l = .bare text) ↔ ¬ IsDate l.text.toList ∧ ¬ IsNumber l.text.toList

theorem Literal.Matches.byWholeText {l : Literal} (h : l.Matches) (hl : l.Unquoted) :
    l.ByWholeText := by
  cases l with
  | quoted text => exact absurd rfl (hl text)
  | date text =>
    have hnumber : ¬ IsNumber text.toList := fun hnumber => hnumber.not_isDate h
    exact ⟨iff_of_true ⟨text, rfl⟩ h, iff_of_false nofun hnumber, iff_of_false nofun (absurd h ·.1)⟩
  | number text =>
    exact ⟨iff_of_false nofun (IsNumber.not_isDate h), iff_of_true ⟨text, rfl⟩ h,
      iff_of_false nofun (absurd h ·.2)⟩
  | bare text =>
    exact ⟨iff_of_false nofun h.2.1, iff_of_false nofun h.2.2, iff_of_true ⟨text, rfl⟩ h.2⟩

/-! ## Arguments in a row -/

/-- A text that belongs to no word. -/
def Gap (s : List Char) : Prop := Run (!isWordChar ·) s

/-- Arguments one behind another in a text, from behind `head` up to `rest`. What is between them
and behind the last one belongs to no word, and each one without quotes is a whole word. -/
inductive Row : List Char → List Literal → List Char → List Char → Prop
  | done {head gap rest : List Char} (hgap : Gap gap) : Row head [] (gap ++ rest) rest
  | next {head gap s rest : List Char} {l : Literal} {ls : List Literal} (hgap : Gap gap)
      (hl : l.Unquoted → WholeWord (head ++ gap) l.text.toList s)
      (hls : Row (head ++ gap ++ l.text.toList) ls s rest) :
      Row head (l :: ls) (gap ++ (l.text.toList ++ s)) rest

theorem Row.empty {head rest : List Char} : Row head [] rest rest :=
  Row.done (Run.nil : Gap [])

theorem Row.exists_wholeWord {head s rest : List Char} {ls : List Literal} (h : Row head ls s rest)
    {l : Literal} (hmem : l ∈ ls) (hl : l.Unquoted) :
    ∃ before after, head ++ s = before ++ l.text.toList ++ after ∧
      WholeWord before l.text.toList after := by
  induction h with
  | done => cases hmem
  | @next head gap s rest k ls _ hk _ ih =>
    rcases List.mem_cons.1 hmem with rfl | hmem
    · exact ⟨head ++ gap, s, by simp, hk hl⟩
    · obtain ⟨before, after, htext, hword⟩ := ih hmem
      exact ⟨before, after, by rw [← htext]; simp, hword⟩

theorem Run.gap {s : List Char} (h : Run isSpace s) : Gap s := by
  intro c hc
  have hword := isWordChar_eq_false_of_isSpace c (h c hc)
  exact congrArg (!·) hword

/-- A gap at the end of a text ends every word before it. -/
theorem Gap.stops_reverse {head gap : List Char} (hgap : Gap gap)
    (hhead : Stops isWordChar head.reverse) : Stops isWordChar (head ++ gap).reverse := by
  rcases List.eq_nil_or_concat' gap with rfl | ⟨s, c, rfl⟩
  · rwa [List.append_nil]
  · have hc := hgap c (List.mem_append_right s (List.mem_singleton_self c))
    rw [Bool.not_eq_true'] at hc
    rw [← List.append_assoc, List.reverse_append]
    exact stops_cons.2 hc

/-- Blanks and a character behind them that belongs to no word are a gap. -/
theorem Run.gap_concat {s : List Char} {c : Char} (h : Run isSpace s)
    (hc : Filter.isWordChar c = false) : Gap (s ++ [c]) :=
  run_append.2 ⟨h.gap, run_cons.2 ⟨congrArg (!·) hc, .nil⟩⟩

/-- An argument behind a gap and blanks, before arguments that are a row behind anything. -/
theorem Literal.Matches.row {l : Literal} {ls : List Literal} {head gap s t rest : List Char}
    (h : l.Matches) (hgap : Gap gap) (hhead : Stops isWordChar (head ++ gap).reverse)
    (hs : Blanks s (l.text.toList ++ t)) (ht : l.Unquoted → Stops isWordChar t)
    (hls : ∀ head, Row head ls t rest) : Row head (l :: ls) (gap ++ s) rest := by
  obtain ⟨w, hw, rfl⟩ := hs
  have hstarts := hw.gap.stops_reverse hhead
  rw [List.append_assoc] at hstarts
  rw [← List.append_assoc]
  exact .next (run_append.2 ⟨hgap, hw.gap⟩) (fun hl => ⟨h.isWord hl, hstarts, ht hl⟩) (hls _)

/-- A list of arguments is a row behind its opening parenthesis, or behind a comma. -/
theorem ArgumentList.row {ls : List Literal} {s rest : List Char} (h : ArgumentList ls s rest)
    (hls : ∀ l ∈ ls, l.Matches) {head gap : List Char} (hgap : Gap gap)
    (hhead : Stops isWordChar (head ++ gap).reverse) : Row head ls (gap ++ s) rest := by
  induction h generalizing head gap with
  | @last l s t rest hl hclose =>
    have hends := hclose.stops isWordChar_eq_false_of_isSpace (stops_cons.2 rfl)
    refine (hls l List.mem_cons_self).row hgap hhead hl (fun _ => hends) fun head => ?_
    obtain ⟨v, hv, rfl⟩ := hclose
    rw [List.append_cons]
    exact .done (hv.gap_concat rfl)
  | @more l ls s t u rest hl hcomma _ ih =>
    have hends := hcomma.stops isWordChar_eq_false_of_isSpace (stops_cons.2 rfl)
    refine (hls l List.mem_cons_self).row hgap hhead hl (fun _ => hends) fun head => ?_
    obtain ⟨v, hv, rfl⟩ := hcomma
    rw [List.append_cons]
    refine ih (fun k hk => hls k (List.mem_cons_of_mem l hk)) (hv.gap_concat rfl) ?_
    rw [← List.append_assoc, List.reverse_append]
    exact stops_cons.2 rfl

/-- The arguments of a comparison are a row behind its comparator. -/
theorem Arguments.row {ls : List Literal} {s rest : List Char} (h : Arguments ls s rest)
    (hls : ∀ l ∈ ls, l.Matches) {head : List Char} (hhead : Stops isWordChar head.reverse) :
    Row head ls s rest := by
  cases h with
  | none hs _ =>
    obtain ⟨w, hw, rfl⟩ := hs
    exact .done hw.gap
  | one hl halone =>
    have hhead' : Stops isWordChar (head ++ []).reverse := by rwa [List.append_nil]
    exact (hls _ List.mem_cons_self).row .nil hhead' hl halone.1 fun _ => .empty
  | list hopen hlist =>
    obtain ⟨w, hw, rfl⟩ := hopen
    rw [List.append_cons]
    refine hlist.row hls (hw.gap_concat rfl) ?_
    rw [← List.append_assoc, List.reverse_append]
    exact stops_cons.2 rfl

/-- No comparator ends like a word. -/
theorem IsComparator.stops_reverse {token : List Char} (h : IsComparator token) (head : List Char) :
    Stops isWordChar (head ++ token).reverse := by
  rcases h with ⟨name, -, -, rfl⟩ | hsymbol
  · rw [← List.cons_append, ← List.append_assoc, List.reverse_append]
    exact stops_cons.2 rfl
  · simp only [symbols, List.mem_cons, List.not_mem_nil, or_false] at hsymbol
    rw [List.reverse_append]
    rcases hsymbol with rfl | rfl | rfl | rfl | rfl | rfl <;> exact stops_cons.2 rfl

/-! ## Arguments of comparisons -/

/-- The part of a text that a comparison's span marks is its selector, its comparator and the row
of its arguments. -/
def Comparison.InRow (text : List Char) (c : Comparison) : Prop :=
  ∃ head blanks token part rest,
    let behind := head ++ (c.selector.toList ++ (blanks ++ token))
    text = behind ++ (part ++ rest) ∧ Run isSpace blanks ∧
    Comparator.ofToken? (String.ofList token) = some c.comparator ∧
    c.span = .behind head (c.selector.toList ++ (blanks ++ token) ++ part) ∧
    Row behind c.arguments (part ++ rest) rest

theorem Clause.Written.inRow {k : Clause} {s rest : List Char} {text : List Char} {c : Comparison}
    (h : k.Written s rest) (hs : s <:+ text) (hc : k.resolve text = .ok c) : c.InRow text := by
  obtain ⟨hselector, hcomparator, harguments⟩ := spells_of_resolve hc
  have hspan := span_of_resolve hc
  obtain ⟨hwell, t, u, hstart, hparts, ht, htoken, hrow, hstop⟩ := h
  obtain ⟨part, rfl⟩ := hrow.suffix
  obtain ⟨blanks, hblanks, rfl⟩ := ht
  obtain ⟨head, rfl⟩ := hstart.suffix.trans hs
  have hk : k.start = c.selector.toList ++ (blanks ++ k.token) ++ part ++ rest := by
    rw [hparts, htoken, hselector]
    simp
  refine ⟨head, blanks, k.token, part, rest, ?_, hblanks, hcomparator, ?_, ?_⟩
  · rw [hk]
    simp
  · rw [hspan, hstop, hk]
    exact Span.between_append head _ rest
  · rw [← harguments, ← List.append_assoc, ← List.append_assoc]
    exact hrow.row hwell.arguments (hwell.token.stops_reverse _)

/-! ## Whole texts -/

/-- **Words are classified as a whole.** In a text that is read, the arguments of each comparison
stand in a row behind its comparator. Each one without quotes is a whole word of the text, and is a
date or a number just if the whole word has that shape. The arguments are those that rules find
which are tried in order and give nothing back. -/
theorem read_words_whole {text : String} {f : Filter} (h : read text = .ok f) :
    (∀ c ∈ f.comparisons, c.InRow text.toList ∧
      ∀ l ∈ c.arguments, l.Unquoted →
        (∃ before after, text.toList = before ++ l.text.toList ++ after ∧
          WholeWord before l.text.toList after) ∧ l.ByWholeText) ∧
    ∀ s, literal? s = argument? s := by
  refine ⟨fun c hc => ?_, literal?_eq_argument?⟩
  have hmatches := (wellFormed_of_read h c hc).arguments
  rcases readChars_eq_ok_iff.1 h with ⟨-, rfl⟩ | ⟨t, ht, hresolve⟩
  · cases hc
  · obtain ⟨k, hk, hkc⟩ := hresolve.exists_leaf c hc
    obtain ⟨s, rest, hs, hwritten⟩ := ht.inOrder.exists_written hk
    have hrow := hwritten.inRow hs hkc
    refine ⟨hrow, fun l hl hunquoted => ⟨?_, (hmatches l hl).byWholeText hunquoted⟩⟩
    obtain ⟨head, blanks, token, part, rest, htext, -, -, -, hrow⟩ := hrow
    rw [htext]
    exact hrow.exists_wholeWord hl hunquoted

/-- Words that begin like a date and like a number are bare. -/
theorem read_words_whole_beginnings :
    ∃ f : Filter, read "a==2020-01-02x;b==1.5.;c==-1.5" = .ok f ∧
      f.comparisons.flatMap (·.arguments) = [.bare "2020-01-02x", .bare "1.5.", .number "-1.5"] ∧
      (∀ c ∈ f.comparisons, c.InRow "a==2020-01-02x;b==1.5.;c==-1.5".toList ∧
        ∀ l ∈ c.arguments, l.Unquoted →
          (∃ before after,
            "a==2020-01-02x;b==1.5.;c==-1.5".toList = before ++ l.text.toList ++ after ∧
              WholeWord before l.text.toList after) ∧ l.ByWholeText) ∧
      ∀ s, literal? s = argument? s := by
  have hread : read "a==2020-01-02x;b==1.5.;c==-1.5" =
      .ok (.or [.and [.leaf ⟨"a", .eq, [.bare "2020-01-02x"], ⟨0, 14, 1, 1⟩⟩,
        .leaf ⟨"b", .eq, [.bare "1.5."], ⟨15, 22, 1, 16⟩⟩,
        .leaf ⟨"c", .eq, [.number "-1.5"], ⟨23, 30, 1, 24⟩⟩]]) := by cbv
  obtain ⟨hwords, hrules⟩ := read_words_whole hread
  exact ⟨_, hread, by simp [comparisons, Node.leaves, Node.leavesOf], hwords, hrules⟩

end RecordFilter.Filter
