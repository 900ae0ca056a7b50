import RecordFilter.Proofs.Compile.Failure
import RecordFilter.Proofs.Filter.Reading.Text

/-!
# Quoted texts

Every text can be an argument: between quotes, with a backslash before every backslash and every
quote (`quoteText`). Two readers have to agree on where an escape begins and where the text ends.
The scanner of filters takes the quoted text and nothing more, whatever follows it
(`quotedBody_escape`), and taking the quotes off gives back the text (`unquote_quoteText`).
-/

namespace RecordFilter

open RecordFilter.Filter

/-! ## Quoting -/

/-- The text with a backslash before every backslash and every quote. -/
def escape (quote : Char) : List Char → List Char
  | [] => []
  | c :: s => if c = quote ∨ c = '\\' then '\\' :: c :: escape quote s else c :: escape quote s

/-- The text between quotes. -/
def quoteText (quote : Char) (s : List Char) : List Char := quote :: (escape quote s ++ [quote])

/-- The characters that can be quotes. -/
def IsQuote (c : Char) : Prop := c = '\'' ∨ c = '"'

variable {quote : Char}

theorem unescape_cons {c : Char} (hc : c ≠ '\\') (s : List Char) :
    unescape quote (c :: s) = c :: unescape quote s := by
  rw [unescape]
  exact fun _ _ heq => absurd heq hc

theorem unescape_escape (s : List Char) : unescape quote (escape quote s) = s := by
  induction s with
  | nil => rfl
  | cons c s ih =>
    rw [escape]
    by_cases hc : c = quote ∨ c = '\\'
    · rw [if_pos hc, unescape, if_pos hc, ih]
    · rw [if_neg hc, unescape_cons fun h => hc (.inr h), ih]

theorem unquote_quoteText (s : List Char) : unquote (quoteText quote s) = s := by
  rw [quoteText, unquote, if_pos List.getLast?_concat, List.dropLast_concat, unescape_escape]

/-- No quote in an escaped text ends it. -/
theorem quotedBody_escape (s : List Char) : QuotedBody quote (escape quote s) := by
  induction s with
  | nil => exact .nil
  | cons c s ih =>
    rw [escape]
    by_cases hc : c = quote ∨ c = '\\'
    · rw [if_pos hc]
      exact .escaped c ih
    · rw [if_neg hc]
      exact .plain (fun h => hc (.inl h)) (fun h => hc (.inr h)) ih

/-! ## Quoted arguments -/

/-- The argument that stands for a text. -/
def Filter.Literal.ofText (quote : Char) (s : String) : Literal :=
  .quoted (String.ofList (quoteText quote s.toList))

namespace Filter.Literal

theorem text_ofText (s : String) : (ofText quote s).text.toList = quoteText quote s.toList :=
  String.toList_ofList

theorem matches_ofText (hquote : IsQuote quote) (s : String) :
    (ofText quote s).Matches := by
  rw [ofText, Matches, String.toList_ofList]
  exact ⟨quote, _, hquote, quotedBody_escape _, rfl⟩

/-- An argument that begins with a quote is no combinator, so anything may follow it. -/
theorem standsAlone_ofText (hquote : IsQuote quote) (s : String) (rest : List Char) :
    (ofText quote s).StandsAlone rest := by
  refine ⟨fun hl => absurd rfl (hl _), ?_⟩
  intro c hc
  rw [text_ofText] at hc
  have hword : isWordChar quote = true := run_of_lower_eq_word hc quote List.mem_cons_self
  rcases hquote with rfl | rfl <;> cases hword

theorem content_ofText (s : String) : Kind.content (ofText quote s) = s.toList := by
  rw [ofText, Kind.content, String.toList_ofList, unquote_quoteText]

end Filter.Literal

/-- The value of the argument is the text. -/
theorem coerce_ofText (s : String) :
    coerce .string [Literal.ofText quote s] = .ok (some [.string s]) := by
  show (do return some (← [Literal.ofText quote s].mapM Kind.string.ofLiteral)) = _
  have hvalue : Kind.string.ofLiteral (Literal.ofText quote s) = .ok (.string s) := by
    rw [Kind.ofLiteral_eq_ok, Literal.content_ofText, Kind.ofText, String.ofList_toList]
  have hvalues : [Literal.ofText quote s].mapM Kind.string.ofLiteral = .ok [.string s] :=
    mapM_eq_ok_iff.2 (.cons hvalue .nil)
  rw [hvalues]
  rfl

/-! ## Filters -/

/-- An equality with an argument that is a value of the property's kind is a comparison with that
value. -/
theorem compileText_equality {registry : Registry} {entity selector : String} {n : Naming}
    {e : Entity} {p : Property} {l : Literal} {v : Value} (d : Like.Draws)
    (he : registry.get? entity = some e) (hp : e.property? (n.propertyName selector) = some p)
    (hselector : IsSelector selector.toList) (hmatches : l.Matches) (halone : l.StandsAlone [])
    (hvalue : coerce p.kind [l] = .ok (some [v])) :
    (registry.compileText entity n (selector ++ "==" ++ l.text) d).1 =
      .ok (.compare p.name .eq v) := by
  have hwritten : Arguments [l] l.text.toList [] := by
    refine .one ?_ halone
    rw [List.append_nil]
    exact .refl
  obtain ⟨span, hread⟩ := read_single hselector (Comparator.ofToken?_spelling .eq)
    (List.forall_mem_singleton.2 hmatches) hwritten
  rw [Comparator.spelling, String.ofList_toList] at hread
  refine Registry.compileText_eq_ok.2 ⟨_, e, hread, he, ?_⟩
  rw [compile_single, Comparison.compileIn_eq_ok]
  refine ⟨p, hp, Comparison.compileBy_eq_ok.2 ⟨v, ?_, rfl⟩⟩
  rw [Comparison.values, hvalue]

/-- An equality with a quoted text compiles to a comparison with the text. -/
theorem compileText_quoted {registry : Registry} {entity selector : String} {n : Naming}
    {e : Entity} {p : Property} (he : registry.get? entity = some e)
    (hp : e.property? (n.propertyName selector) = some p) (hkind : p.kind = .string)
    (hselector : IsSelector selector.toList) (hquote : IsQuote quote) (s : String)
    (d : Like.Draws) :
    (registry.compileText entity n
        (selector ++ "==" ++ String.ofList (quoteText quote s.toList)) d).1 =
      .ok (.compare p.name .eq (.string s)) := by
  rw [← Literal.text_ofText, String.ofList_toList]
  refine compileText_equality d he hp hselector (Literal.matches_ofText hquote s)
    (Literal.standsAlone_ofText hquote s []) ?_
  rw [hkind, coerce_ofText]

/-- **A quoted text stands for the text.** Whatever the text is made of, its quoted form is taken
whole as an argument, alone before anything or at any place of a list, and so in every way to write
a filter; its value is the text. An equality with it is a comparison with the text. -/
theorem quoteText_stands_for (s : String) (quote : Char) (hquote : IsQuote quote) :
    let l := Literal.ofText quote s
    (∀ rest, readOptionalArguments (quoteText quote s.toList ++ rest) = .ok ([l], rest)) ∧
    (∀ before after t rest, (∀ a ∈ before ++ after, a.Matches) →
      ArgumentList (before ++ l :: after) t rest →
      readOptionalArguments ('(' :: t) = .ok (before ++ l :: after, rest)) ∧
    (∀ f : Filter, f.IsAlternatives →
      (∀ c ∈ f.comparisons, IsSelector c.selector.toList ∧ ∀ a ∈ c.arguments, a = l ∨ a.Matches) →
      (∃ text, Writes f text) ∧
        ∀ text, Writes f text → ∃ g : Filter, read text = .ok g ∧ g.Rel Comparison.Alike f) ∧
    coerce .string [l] = .ok (some [.string s]) ∧
    ∀ (registry : Registry) (entity selector : String) (n : Naming) (e : Entity) (p : Property),
      registry.get? entity = some e → e.property? (n.propertyName selector) = some p →
      p.kind = .string → IsSelector selector.toList →
      let q : Predicate := .compare p.name .eq (.string s)
      (∀ draws, (registry.compileText entity n
          (selector ++ "==" ++ String.ofList (quoteText quote s.toList)) draws).1 = .ok q) ∧
        ∀ get, q.evaluate get = true ↔ (get p.name).compare (.string s) = some .eq := by
  intro l
  have hmatches : l.Matches := Literal.matches_ofText hquote s
  refine ⟨?_, ?_, ?_, coerce_ofText s, ?_⟩
  · intro rest
    have halone := Literal.standsAlone_ofText hquote s rest
    rw [← Literal.text_ofText, readOptionalArguments_of_ne,
      halone.combinator?_eq_none hmatches, literal?_eq_some.2 ⟨hmatches, rfl, halone.1⟩]
    intro t heq
    rw [Literal.text_ofText] at heq
    rcases hquote with rfl | rfl <;> cases heq
  · intro before after t rest hall hlist
    refine readArguments_eq_ok.2 ⟨?_, hlist⟩
    obtain ⟨hbefore, hafter⟩ := List.forall_mem_append.1 hall
    exact List.forall_mem_append.2 ⟨hbefore, List.forall_mem_cons.2 ⟨hmatches, hafter⟩⟩
  · intro f hshape hcomparisons
    have hwell : WellFormed f := by
      refine ⟨hshape, fun c hc => ?_⟩
      obtain ⟨hselector, harguments⟩ := hcomparisons c hc
      refine ⟨hselector, fun a ha => ?_⟩
      rcases harguments a ha with rfl | ha
      · exact hmatches
      · exact ha
    exact ⟨hwell.exists_writes, fun text => Writes.exists_read⟩
  · intro registry entity selector n e p he hp hkind hselector q
    refine ⟨compileText_quoted he hp hkind hselector hquote s, fun get => ?_⟩
    simp [q, Predicate.evaluate, Relation.admits]

/-- A text with a quote, parentheses, a comma and a backslash at its end. -/
theorem quoteText_stands_for_escapes :
    let user : Entity := ⟨"User", [{ name := "Name", kind := .string }], by decide⟩
    let registry : Registry := ⟨[user], by decide⟩
    IsQuote '\'' ∧ registry.get? "User" = some user ∧
      (registry.compileText "User" .asIs "Name=='it\\'s (a, b)\\\\'" (.counted 0)).1 =
        .ok (.compare "Name" .eq (.string "it's (a, b)\\")) := by
  intro user registry
  have huser : registry.get? "User" = some user := rfl
  have hname : user.property? (Naming.asIs.propertyName "Name") =
      some { name := "Name", kind := .string } := by decide
  have hselector : IsSelector "Name".toList := ⟨'N', ['a', 'm', 'e'], rfl, rfl, run_of_all rfl⟩
  obtain ⟨-, -, -, -, h⟩ := quoteText_stands_for "it's (a, b)\\" '\'' (Or.inl rfl)
  exact ⟨Or.inl rfl, huser,
    (h registry "User" "Name" .asIs user _ huser hname rfl hselector).1 _⟩

end RecordFilter
