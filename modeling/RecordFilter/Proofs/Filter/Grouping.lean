import RecordFilter.Proofs.Filter.Language
import RecordFilter.Proofs.Filter.Reading.Text

/-!
# Filters in parentheses

A text that is a filter can be put in parentheses and joined to another one: the tree of each is
found again as a group, with its comparisons moved to their new places and nothing else changed
(`read_groups`).

A reader decides by what follows: a word ends where no word character follows, and the letters of a
combinator are one only before a blank or an opening parenthesis. A closing parenthesis decides all
of this in the way in which the end of the text does, so whatever is written before the one is
written before the other (`Alternatives.append_closing`).
-/

namespace RecordFilter.Filter

open Text

/-! ## Trees -/

namespace Node

variable {α β γ δ : Type} {R : α → β → Prop} {S : γ → δ → Prop} {f : α → γ} {g : β → δ}

/-- The tree with a function applied to each leaf. -/
def map (f : α → β) : Node α → Node β
  | .or ts => .or (ts.map (map f))
  | .and ts => .and (ts.map (map f))
  | .leaf a => .leaf (f a)

theorem map_alternatives (alternatives : List (List (Node α))) :
    map f (.or (alternatives.map .and)) =
      .or ((alternatives.map (List.map (map f))).map .and) := by
  rw [map, List.map_map, List.map_map]
  congr 2
  funext a
  rw [Function.comp_apply, map, Function.comp_apply]

mutual

/-- Trees whose leaves are related stay so under functions that keep the relation of their
leaves. -/
theorem Rel.map : ∀ {t : Node α} {u : Node β},
    (∀ a ∈ t.leaves, ∀ b, R a b → S (f a) (g b)) → Rel R t u → Rel S (t.map f) (u.map g)
  | .or ts, .or us, h, ht => by
    rw [leaves] at h
    rw [Node.map, Node.map]
    exact RelAll.map h ht
  | .and ts, .and us, h, ht => by
    rw [leaves] at h
    rw [Node.map, Node.map]
    exact RelAll.map h ht
  | .leaf a, .leaf b, h, ht => by
    rw [Node.map, Node.map]
    exact h a (by rw [leaves]; exact List.mem_singleton_self a) b ht

theorem RelAll.map : ∀ {ts : List (Node α)} {us : List (Node β)},
    (∀ a ∈ leavesOf ts, ∀ b, R a b → S (f a) (g b)) → RelAll R ts us →
      RelAll S (ts.map (Node.map f)) (us.map (Node.map g))
  | [], [], _, _ => trivial
  | t :: ts, u :: us, h, ht => by
    rw [leavesOf, List.forall_mem_append] at h
    exact ⟨Rel.map h.1 ht.1, RelAll.map h.2 ht.2⟩

end

end Node

/-- The tree of two constraints with a combinator between them. -/
def Combinator.pair {α : Type} (t u : Node α) : Combinator → Node α
  | .and => .or [.and [t, u]]
  | .or => .or [.and [t], .and [u]]

/-! ## A closing parenthesis for the end of the text -/

section Closing

variable {s t rest : List Char} {l : Literal} {ls : List Literal} {k : Clause}

theorem Blanks.append (h : Blanks s t) (tail : List Char) : Blanks (s ++ tail) (t ++ tail) := by
  obtain ⟨w, hw, rfl⟩ := h
  exact ⟨w, hw, List.append_assoc w t tail⟩

theorem Stops.append_closing {p : Char → Bool} (h : Stops p s) (hp : p ')' = false)
    (tail : List Char) : Stops p (s ++ ')' :: tail) := by
  cases s with
  | nil => exact stops_cons.2 hp
  | cons c s => exact stops_cons.2 (stops_cons.1 h)

theorem endsKeyword_append_closing (s tail : List Char) :
    endsKeyword (s ++ ')' :: tail) = endsKeyword s := by
  cases s <;> rfl

theorem ArgumentList.append (h : ArgumentList ls s rest) (tail : List Char) :
    ArgumentList ls (s ++ tail) (rest ++ tail) := by
  induction h with
  | last hl hclose =>
    have hl := hl.append tail
    rw [List.append_assoc] at hl
    exact .last hl (hclose.append tail)
  | more hl hcomma _ ih =>
    have hl := hl.append tail
    rw [List.append_assoc] at hl
    exact .more hl (hcomma.append tail) ih

theorem Arguments.append_closing (h : Arguments ls s rest) (tail : List Char) :
    Arguments ls (s ++ ')' :: tail) (rest ++ ')' :: tail) := by
  cases h with
  | none hs hrest => exact .none (hs.append _) (hrest.append_closing rfl tail)
  | one hl hrest =>
    have hl := hl.append (')' :: tail)
    rw [List.append_assoc] at hl
    refine .one hl ⟨fun h => (hrest.1 h).append_closing rfl tail, fun c hc => ?_⟩
    rw [endsKeyword_append_closing]
    exact hrest.2 c hc
  | list hopen hls => exact .list (hopen.append _) (hls.append _)

theorem endsKeyword_append {tail : List Char} (h : endsKeyword s = true) :
    endsKeyword (s ++ tail) = true := by
  cases s with
  | nil => cases h
  | cons c s => exact h

theorem Joint.append {c : Combinator} (h : Joint c s rest) (tail : List Char) :
    Joint c (s ++ tail) (rest ++ tail) := by
  obtain ⟨v, hv, hs⟩ := h
  have hs := hs.append tail
  rw [List.append_assoc] at hs
  exact ⟨v, hv.imp id (And.imp id endsKeyword_append), hs⟩

/-- The clause in a text that goes on. -/
def Clause.extend (tail : List Char) (k : Clause) : Clause :=
  { k with
    start := k.start ++ tail, tokenStart := k.tokenStart ++ tail, stop := k.stop ++ tail }

theorem Clause.Written.append_closing (h : k.Written s rest) (tail : List Char) :
    (k.extend (')' :: tail)).Written (s ++ ')' :: tail) (rest ++ ')' :: tail) := by
  obtain ⟨hwell, t, u, hs, hstart, ht, htoken, harguments, hstop⟩ := h
  refine ⟨⟨hwell.selector, hwell.token, hwell.arguments⟩, t ++ ')' :: tail, u ++ ')' :: tail,
    hs.append _, ?_, ht.append _, ?_, harguments.append_closing tail, ?_⟩
  · rw [extend, hstart, List.append_assoc]
  · rw [extend, htoken, List.append_assoc]
  · rw [extend, hstop]

mutual

theorem Constraint.append_closing : ∀ {t : Node Clause} {s rest : List Char},
    Constraint t s rest → ∀ tail : List Char,
      Constraint (t.map (Clause.extend (')' :: tail))) (s ++ ')' :: tail) (rest ++ ')' :: tail)
  | _, _, _, .clause h, tail => by
    rw [Node.map]
    exact .clause (h.append_closing tail)
  | _, _, _, .group hopen h hclose, tail => by
    rw [Node.map_alternatives]
    exact .group (hopen.append _) (h.append_closing tail) (hclose.append _)

/-- **What is written before the end of a text is written before a closing parenthesis.** -/
theorem Alternatives.append_closing : ∀ {alternatives : List (List (Node Clause))}
    {s rest : List Char}, Alternatives alternatives s rest → ∀ tail : List Char,
      Alternatives (alternatives.map (List.map (Node.map (Clause.extend (')' :: tail)))))
        (s ++ ')' :: tail) (rest ++ ')' :: tail)
  | _, _, _, .single h, tail => .single (h.append_closing tail)
  | _, _, _, .and h hand hmore, tail =>
    .and (h.append_closing tail) (hand.append _) (hmore.append_closing tail)
  | _, _, _, .or h hor hmore, tail =>
    .or (h.append_closing tail) (hor.append _) (hmore.append_closing tail)

end

/-- A laid out tree is a constraint, in parentheses. -/
theorem LaidOut.enclosed {t : Node Clause} (h : LaidOut t s) (rest : List Char) :
    Constraint (t.map (Clause.extend (')' :: rest))) ('(' :: (s ++ ')' :: rest)) rest := by
  obtain ⟨alternatives, u, rfl, h, hu⟩ := h
  rw [Node.map_alternatives]
  exact .group .refl (h.append_closing rest) (hu.append (')' :: rest))

end Closing

/-- Two laid out trees in parentheses, with the sign of a combinator between them. -/
theorem LaidOut.pair {t u : Node Clause} {s v : List Char} (ht : LaidOut t s) (hu : LaidOut u v)
    (c : Combinator) :
    LaidOut
      (c.pair (t.map (.extend (')' :: c.sign :: '(' :: (v ++ [')'])))) (u.map (.extend [')'])))
      ('(' :: (s ++ ')' :: c.sign :: '(' :: (v ++ [')']))) := by
  have ht := ht.enclosed (c.sign :: '(' :: (v ++ [')']))
  have hu := Alternatives.single (hu.enclosed [])
  have hjoint : Joint c (c.sign :: '(' :: (v ++ [')'])) ('(' :: (v ++ [')'])) :=
    ⟨[c.sign], .inl rfl, .refl⟩
  cases c with
  | and => exact ⟨[[_, _]], [], rfl, .and ht hjoint hu, .refl⟩
  | or => exact ⟨[[_], [_]], [], rfl, .or ht hjoint hu, .refl⟩

/-! ## Places -/

/-- The place in a text that goes on, behind the text that is now before it. -/
def Span.moved (head : List Char) (s : Span) : Span where
  start := byteLength head + s.start
  stop := byteLength head + s.stop
  line := lineOf head + s.line - 1
  column := if s.line = 1 then columnOf head + s.column - 1 else s.column

theorem byteLength_append (s t : List Char) :
    byteLength (s ++ t) = byteLength s + byteLength t := by
  induction s with
  | nil => simp [byteLength]
  | cons c s ih => rw [List.cons_append, byteLength, byteLength, ih, Nat.add_assoc]

theorem lineOf_append (s t : List Char) : lineOf (s ++ t) = lineOf s + lineOf t - 1 := by
  rw [lineOf, lineOf, lineOf, List.count_append]
  omega

theorem lineOf_eq_one_iff {s : List Char} :
    lineOf s = 1 ↔ ∀ c ∈ s.reverse, (c != '\n') = true := by
  rw [lineOf, Nat.succ_inj, List.count_eq_zero]
  simp only [List.mem_reverse, bne_iff_ne]
  exact ⟨fun h c hc heq => h (heq ▸ hc), fun h hc => h _ hc rfl⟩

/-- On the first line of a text, columns are counted on from what stands before it. -/
theorem columnOf_append (s t : List Char) :
    columnOf (s ++ t) = if lineOf t = 1 then columnOf s + columnOf t - 1 else columnOf t := by
  unfold columnOf
  rw [List.reverse_append]
  split
  · next h =>
    rw [lineOf_eq_one_iff] at h
    rw [List.takeWhile_append_of_pos h, List.takeWhile_eq_self_iff.2 h, List.length_append]
    omega
  · next h =>
    -- a line break in the second text hides the first one
    rw [lineOf_eq_one_iff, ← List.takeWhile_eq_self_iff] at h
    rw [List.takeWhile_append, if_neg fun hlen => h ((List.takeWhile_prefix _).eq_of_length hlen)]

theorem before_moved {whole rest : List Char} (h : rest <:+ whole) (head tail : List Char) :
    before (head ++ (whole ++ tail)) (rest ++ tail) = head ++ before whole rest := by
  obtain ⟨w, rfl⟩ := h
  rw [before_append, ← before_append (head ++ w) (rest ++ tail)]
  simp only [List.append_assoc]

theorem Span.between_moved {whole start stop : List Char} (hstart : start <:+ whole)
    (hstop : stop <:+ whole) (head tail : List Char) :
    between (head ++ (whole ++ tail)) (start ++ tail) (stop ++ tail) =
      (between whole start stop).moved head := by
  simp only [between, before_moved hstart, before_moved hstop, byteLength_append, lineOf_append,
    columnOf_append]
  rfl

/-! ## Reading -/

/-- The comparison in a text that goes on, behind the text that is now before it. -/
def Comparison.moved (head : List Char) (c : Comparison) : Comparison :=
  { c with span := c.span.moved head }

/-- The filter in a text that goes on, behind the text that is now before it. -/
def moved (head : List Char) (f : Filter) : Filter := f.map (Comparison.moved head)

theorem Clause.resolve_extend {k : Clause} {whole : List Char} {c : Comparison}
    (hstart : k.start <:+ whole) (hstop : k.stop <:+ whole) (head tail : List Char)
    (h : k.resolve whole = .ok c) :
    (k.extend tail).resolve (head ++ (whole ++ tail)) = .ok (c.moved head) := by
  dsimp only [resolve] at h ⊢
  split at h
  · next comparator hcomparator =>
    cases h
    rw [show (k.extend tail).token = k.token from rfl, hcomparator]
    simp only [extend, Comparison.moved, Span.between_moved hstart hstop]
  · cases h

theorem Clause.Written.start_suffix {k : Clause} {s rest : List Char} (h : k.Written s rest) :
    k.start <:+ s := by
  obtain ⟨-, t, u, hs, -⟩ := h
  exact hs.suffix

theorem Clause.Written.stop_suffix {k : Clause} {s rest : List Char} (h : k.Written s rest) :
    k.stop <:+ s := by
  rw [h.stop_eq]
  exact h.suffix_tokenStart.trans h.tokenStart_suffix

/-- The clauses of a text stand for the same comparisons in a longer one, at other places. -/
theorem LaidOut.rel_moved {t : Node Clause} {whole : List Char} {f : Filter} (ht : LaidOut t whole)
    (h : t.Rel (fun k c => k.resolve whole = .ok c) f) (head tail : List Char) :
    (t.map (Clause.extend tail)).Rel
      (fun k c => k.resolve (head ++ (whole ++ tail)) = .ok c) (f.moved head) := by
  refine h.map fun k hk c hc => ?_
  -- a clause that is written in the text begins and ends in it
  obtain ⟨s, rest, hs, hwritten⟩ := ht.inOrder.exists_written hk
  exact Clause.resolve_extend (hwritten.start_suffix.trans hs) (hwritten.stop_suffix.trans hs)
    head tail hc

theorem exists_laidOut_of_read {whole : List Char} {f : Filter} (h : readChars whole = .ok f)
    (hblank : ¬ Blanks whole []) :
    ∃ t, LaidOut t whole ∧ t.Rel (fun k c => k.resolve whole = .ok c) f :=
  (readChars_eq_ok_iff.1 h).resolve_left fun h => hblank h.1

/-- Two texts that are filters, each in parentheses and with the sign of a combinator between
them. -/
theorem readChars_groups {s t : List Char} {f g : Filter} (hf : readChars s = .ok f)
    (hs : ¬ Blanks s []) (hg : readChars t = .ok g) (ht : ¬ Blanks t []) (c : Combinator) :
    readChars ('(' :: (s ++ ')' :: c.sign :: '(' :: (t ++ [')']))) =
      .ok (c.pair (f.moved ['(']) (g.moved ('(' :: (s ++ [')', c.sign, '('])))) := by
  obtain ⟨u, hu, hf⟩ := exists_laidOut_of_read hf hs
  obtain ⟨v, hv, hg⟩ := exists_laidOut_of_read hg ht
  have hf := hu.rel_moved hf ['('] (')' :: c.sign :: '(' :: (t ++ [')']))
  have hg := hv.rel_moved hg ('(' :: (s ++ [')', c.sign, '('])) [')']
  rw [List.cons_append, List.append_assoc] at hg
  refine readChars_eq_ok_iff.2 (.inr ⟨_, hu.pair hv c, ?_⟩)
  cases c with
  | and => exact ⟨⟨hf, hg, trivial⟩, trivial⟩
  | or => exact ⟨⟨hf, trivial⟩, ⟨hg, trivial⟩, trivial⟩

/-- What stands between two groups that a combinator joins. -/
def Combinator.betweenGroups : Combinator → String
  | .and => ");("
  | .or => "),("

theorem not_blanks {text : String} (h : ∃ c ∈ text.toList, isSpace c = false) :
    ¬ Blanks text.toList [] := by
  rintro ⟨w, hw, heq⟩
  obtain ⟨c, hc, hspace⟩ := h
  rw [heq, List.append_nil] at hc
  rw [hw c hc] at hspace
  cases hspace

/-- **Texts in parentheses keep their trees.** Two texts that are filters and not blank, each in
parentheses and joined by a combinator, are read as the two filters joined by it. -/
theorem read_groups {text text' : String} {f g : Filter} (hf : read text = .ok f)
    (hblank : ∃ c ∈ text.toList, isSpace c = false) (hg : read text' = .ok g)
    (hblank' : ∃ c ∈ text'.toList, isSpace c = false) (c : Combinator) :
    read ("(" ++ text ++ c.betweenGroups ++ text' ++ ")") =
      .ok (c.pair (f.moved "(".toList)
        (g.moved ("(" ++ text ++ c.betweenGroups).toList)) := by
  have h := readChars_groups hf (not_blanks hblank) hg (not_blanks hblank') c
  cases c <;> simpa [read, Combinator.betweenGroups, Combinator.sign] using h

end RecordFilter.Filter
