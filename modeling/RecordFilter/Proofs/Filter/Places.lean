import RecordFilter.Proofs.Filter.Grouping

/-!
# Places of comparisons

Where the comparisons of a filter stand in its text (`read_locates`). The span of a comparison marks
a part of the text that is that comparison and nothing else: read by itself, it gives the comparison
back. The parts are in the order of the comparisons and do not overlap.

A part loses what followed it in the text, and the readers look at what follows. But what is written
before a rest is written before any beginning of that rest (`Clause.Written.of_append`), also before
nothing: at the end of a text every word ends, and no word is a combinator.
-/

namespace RecordFilter.Filter

open Text

/-! ## The end of a text cut off -/

section Cut

variable {p : Char → Bool} {s rest tail : List Char} {l : Literal} {ls : List Literal} {k : Clause}

theorem Blanks.of_append {t : List Char} (h : Blanks (s ++ tail) (t ++ tail)) : Blanks s t := by
  obtain ⟨w, hw, h⟩ := h
  rw [← List.append_assoc] at h
  exact ⟨w, hw, List.append_cancel_right h⟩

theorem Stops.of_append (h : Stops p (s ++ tail)) : Stops p s := by
  cases s with
  | nil => exact stops_nil
  | cons c s => exact stops_cons.2 (stops_cons.1 h)

theorem Literal.StandsAlone.of_append (h : l.StandsAlone (rest ++ tail)) : l.StandsAlone rest := by
  refine ⟨fun hl => (h.1 hl).of_append, fun c hc => ?_⟩
  cases rest with
  | nil => rfl
  | cons x rest => exact h.2 c hc

theorem ArgumentList.of_append (h : ArgumentList ls (s ++ tail) (rest ++ tail)) :
    ArgumentList ls s rest := by
  generalize hs : s ++ tail = s', hrest : rest ++ tail = rest' at h
  induction h generalizing s with
  | last hl hclose =>
    subst hs hrest
    obtain ⟨t, rfl⟩ := ((List.suffix_append rest tail).trans (List.suffix_cons ')' _)).trans
      hclose.suffix
    rw [← List.append_assoc] at hl
    exact .last hl.of_append (Blanks.of_append (t := ')' :: rest) hclose)
  | more hl hcomma hls ih =>
    subst hs hrest
    obtain ⟨u, rfl⟩ := (List.suffix_append rest tail).trans hls.suffix
    obtain ⟨t, rfl⟩ := ((List.suffix_append u tail).trans (List.suffix_cons ',' _)).trans
      hcomma.suffix
    rw [← List.append_assoc] at hl
    exact .more hl.of_append (Blanks.of_append (t := ',' :: u) hcomma) (ih rfl rfl)

theorem Arguments.of_append (h : Arguments ls (s ++ tail) (rest ++ tail)) :
    Arguments ls s rest := by
  generalize hrest : rest ++ tail = rest' at h
  cases h with
  | none hs hstops =>
    subst hrest
    exact .none hs.of_append hstops.of_append
  | one hl halone =>
    subst hrest
    rw [← List.append_assoc] at hl
    exact .one hl.of_append halone.of_append
  | list hopen hls =>
    subst hrest
    obtain ⟨t, rfl⟩ := (List.suffix_append rest tail).trans hls.suffix
    exact .list (Blanks.of_append (t := '(' :: t) hopen) hls.of_append

/-- What is written before some rest is written before any beginning of it. -/
theorem Clause.Written.of_append (h : k.Written (s ++ tail) (rest ++ tail)) :
    ∃ j : Clause, k = j.extend tail ∧ j.Written s rest := by
  obtain ⟨hwell, t, u, hs, hstart, ht, htoken, harguments, hstop⟩ := h
  obtain ⟨u, rfl⟩ := (List.suffix_append rest tail).trans harguments.suffix
  rw [← List.append_assoc] at htoken
  rw [htoken] at ht
  obtain ⟨t, rfl⟩ := (List.suffix_append _ tail).trans ht.suffix
  rw [← List.append_assoc] at hstart
  rw [hstart] at hs
  let j : Clause :=
    { selector := k.selector, token := k.token, arguments := k.arguments
      start := k.selector ++ t, tokenStart := k.token ++ u, stop := rest }
  have hk : k = j.extend tail := by
    rw [Clause.extend, ← hstart, ← htoken, ← hstop]
  exact ⟨j, hk, ⟨hwell.selector, hwell.token, hwell.arguments⟩, t, u, hs.of_append, rfl,
    ht.of_append, rfl, harguments.of_append, rfl⟩

/-- A clause that is written in a text is one that fills a text of its own, with what followed it
behind. -/
theorem Clause.Written.exists_alone (h : k.Written s rest) :
    ∃ j : Clause, k = j.extend rest ∧ j.Written j.start [] := by
  obtain ⟨part, hpart⟩ := h.suffix_start
  have halone : k.Written (part ++ rest) ([] ++ rest) := hpart ▸ h.written_start
  obtain ⟨j, rfl, hj⟩ := halone.of_append
  obtain rfl : part = j.start := List.append_cancel_right hpart
  exact ⟨j, rfl, hj⟩

end Cut

/-! ## What a span says -/

theorem byteLength_eq (s : List Char) : byteLength s = (String.ofList s).utf8ByteSize := by
  rw [String.utf8ByteSize_ofList]
  induction s with
  | nil => rfl
  | cons c s ih => rw [byteLength, ih, String.utf8Len_cons, Nat.add_comm]

theorem byteLength_pos {s : List Char} (h : s ≠ []) : 0 < byteLength s := by
  obtain ⟨c, s, rfl⟩ := List.exists_cons_of_ne_nil h
  exact Nat.add_pos_left c.utf8Size_pos _

/-- A column counts the characters behind the last line feed. -/
theorem exists_lastLine (s : List Char) :
    ∃ lines last, s = lines ++ last ∧ (lines = [] ∨ ∃ l, lines = l ++ ['\n']) ∧ '\n' ∉ last ∧
      columnOf s = last.length + 1 := by
  obtain ⟨hrun, hreverse, hstops⟩ :=
    splitWhile_eq_iff.1 (rfl : splitWhile (· != '\n') s.reverse = (_, _))
  refine ⟨(s.reverse.dropWhile (· != '\n')).reverse, (s.reverse.takeWhile (· != '\n')).reverse,
    ?_, ?_, ?_, ?_⟩
  · rw [← List.reverse_append, ← hreverse, List.reverse_reverse]
  · cases hlines : s.reverse.dropWhile (· != '\n') with
    | nil => exact .inl rfl
    | cons c l =>
      rw [hlines] at hstops
      have hc := stops_cons.1 hstops
      rw [bne_eq_false_iff_eq] at hc
      exact .inr ⟨l.reverse, by rw [List.reverse_cons, hc]⟩
  · intro hmem
    have hc := hrun '\n' (List.mem_reverse.1 hmem)
    cases hc
  · rw [columnOf, List.length_reverse]

/-- A span marks a part of a text behind what stands before it: its offsets count bytes, its line
counts line feeds, and its column counts the characters behind the last of them. -/
structure Span.Marks (s : Span) (head part : String) : Prop where
  start : s.start = head.utf8ByteSize
  stop : s.stop = (head ++ part).utf8ByteSize
  line : s.line = 1 + head.toList.count '\n'
  column : ∃ lines last : String, head = lines ++ last ∧ (lines = "" ∨ ∃ l, lines = l ++ "\n") ∧
    '\n' ∉ last.toList ∧ s.column = 1 + last.length

theorem Span.marks_behind (head part : List Char) :
    (behind head part).Marks (String.ofList head) (String.ofList part) := by
  refine ⟨byteLength_eq head, ?_, ?_, ?_⟩
  · rw [← String.ofList_append]
    exact byteLength_eq _
  · rw [String.toList_ofList, Nat.add_comm]
    rfl
  · obtain ⟨lines, last, rfl, hlines, hlast, hcolumn⟩ := exists_lastLine head
    refine ⟨String.ofList lines, String.ofList last, String.ofList_append, ?_, ?_, ?_⟩
    · rcases hlines with rfl | ⟨l, rfl⟩
      · exact .inl rfl
      · exact .inr ⟨String.ofList l, String.ofList_append⟩
    · rwa [String.toList_ofList]
    · rw [String.length_ofList, Nat.add_comm]
      exact hcolumn

/-! ## The part of a comparison -/

/-- The span of a comparison marks a part of a text that is not empty, and that part by itself is
read as the comparison. -/
def Comparison.LocatedIn (text : String) (c : Comparison) : Prop :=
  ∃ head part tail : String, text = head ++ part ++ tail ∧ c.span.Marks head part ∧
    c.span.start < c.span.stop ∧ ∃ d, read part = .ok (.or [.and [.leaf d]]) ∧ d.Alike c

theorem Clause.span_of_resolve {k : Clause} {whole : List Char} {c : Comparison}
    (h : k.resolve whole = .ok c) : c.span = .between whole k.start k.stop := by
  dsimp only [resolve] at h
  split at h
  · cases h
    rfl
  · cases h

theorem Clause.Written.start_ne_nil {k : Clause} {s rest : List Char} (h : k.Written s rest) :
    k.start ≠ [] := by
  obtain ⟨⟨⟨c, w, hselector, -⟩, -⟩, t, u, -, hstart, -⟩ := h
  rw [hstart, hselector]
  exact List.cons_ne_nil _ _

theorem Clause.Written.locatedIn {k : Clause} {s rest : List Char} {text : String} {c : Comparison}
    (h : k.Written s rest) (hs : s <:+ text.toList) (hc : k.resolve text.toList = .ok c) :
    c.LocatedIn text := by
  obtain ⟨j, rfl, hj⟩ := h.exists_alone
  obtain ⟨head, htext⟩ := h.start_suffix.trans hs
  have hspan : c.span = .behind head j.start := by
    rw [span_of_resolve hc, h.stop_eq, ← htext]
    exact Span.between_append head j.start rest
  have hspells : j.Spells c := by
    obtain ⟨hselector, hcomparator, harguments⟩ := spells_of_resolve hc
    exact ⟨hselector, hcomparator, harguments⟩
  refine ⟨String.ofList head, String.ofList j.start, String.ofList rest, ?_, ?_, ?_, ?_⟩
  · rw [← String.ofList_append, ← String.ofList_append, List.append_assoc, ← String.toList_inj,
      String.toList_ofList]
    exact htext.symm
  · rw [hspan]
    exact Span.marks_behind head j.start
  · rw [hspan, Span.behind, byteLength_append]
    exact Nat.lt_add_of_pos_right (byteLength_pos hj.start_ne_nil)
  · rw [read, String.toList_ofList]
    exact hj.exists_read hspells

/-! ## The order of comparisons -/

theorem byteLength_before_le {whole s t : List Char} (hs : s <:+ whole) (ht : t <:+ s) :
    byteLength (before whole s) ≤ byteLength (before whole t) := by
  obtain ⟨v, rfl⟩ := ht
  obtain ⟨u, rfl⟩ := hs
  rw [before_append, ← List.append_assoc, before_append, byteLength_append]
  exact Nat.le_add_right _ _

/-- The comparisons of clauses that are written one behind another stand so too, and the first of
them begins no sooner than the text of the clauses. -/
theorem InOrder.pairwise {whole : List Char} {ks : List Clause} {cs : List Comparison}
    {s rest : List Char} (h : InOrder ks s rest) (hs : s <:+ whole)
    (hcs : List.Forall₂ (fun k c => k.resolve whole = .ok c) ks cs) :
    (∀ c ∈ cs, byteLength (before whole s) ≤ c.span.start) ∧
      cs.Pairwise fun c d => c.span.stop ≤ d.span.start := by
  induction h generalizing cs with
  | nil =>
    cases hcs
    exact ⟨nofun, .nil⟩
  | @cons k ks s t u rest ht hk _ ih =>
    obtain _ | ⟨hc, hcs⟩ := hcs
    next c cs =>
    have hstart := hk.start_suffix.trans ht
    have hu := (hk.suffix_tokenStart.trans hk.tokenStart_suffix).trans ht
    obtain ⟨hall, hpairs⟩ := ih (hu.trans hs) hcs
    have hspan := Clause.span_of_resolve hc
    rw [hk.stop_eq] at hspan
    have hbehind : ∀ d ∈ cs, c.span.stop ≤ d.span.start := by
      rw [hspan]
      exact hall
    refine ⟨List.forall_mem_cons.2 ⟨?_, fun d hd => ?_⟩, .cons hbehind hpairs⟩
    · rw [hspan]
      exact byteLength_before_le hs hstart
    · exact (byteLength_before_le hs hu).trans (hall d hd)

/-! ## Whole texts -/

/-- **The spans of comparisons.** In a text that is read, every comparison has a part of its own,
and these parts stand one behind another. -/
theorem read_locates {text : String} {f : Filter} (h : read text = .ok f) :
    (∀ c ∈ f.comparisons, c.LocatedIn text) ∧
      f.comparisons.Pairwise fun c d => c.span.stop ≤ d.span.start := by
  rcases readChars_eq_ok_iff.1 h with ⟨-, rfl⟩ | ⟨t, ht, hresolve⟩
  · rw [comparisons, unrestricted, Node.leaves, Node.leavesOf]
    exact ⟨List.forall_mem_nil _, .nil⟩
  · have horder := ht.inOrder
    refine ⟨fun c hc => ?_, (horder.pairwise List.suffix_rfl hresolve.forall₂_leaves).2⟩
    obtain ⟨k, hk, hkc⟩ := hresolve.exists_leaf c hc
    obtain ⟨s, rest, hs, hwritten⟩ := horder.exists_written hk
    exact hwritten.locatedIn hs hkc

/-- A comparison on the second line, behind a letter of two bytes. -/
theorem read_locates_second_line :
    ∃ f : Filter, read "(a=='é',\n b==or)" = .ok f ∧
      f.comparisons.map (·.span) = [⟨1, 8, 1, 2⟩, ⟨11, 16, 2, 2⟩] ∧
      (∀ c ∈ f.comparisons, c.LocatedIn "(a=='é',\n b==or)") ∧
      f.comparisons.Pairwise fun c d => c.span.stop ≤ d.span.start := by
  have hread : read "(a=='é',\n b==or)" =
      .ok (.or [.and [.or [.and [.leaf ⟨"a", .eq, [.quoted "'é'"], ⟨1, 8, 1, 2⟩⟩],
        .and [.leaf ⟨"b", .eq, [.bare "or"], ⟨11, 16, 2, 2⟩⟩]]]]) := by cbv
  exact ⟨_, hread, by simp [comparisons, Node.leaves, Node.leavesOf], read_locates hread⟩

end RecordFilter.Filter
