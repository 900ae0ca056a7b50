import Mathlib.Computability.Language
import RecordFilter.Proofs.Filter.Language

/-!
# Arguments by rules in order

The grammar gives the forms of an argument as rules that are tried one after another: a date, a
number, a bare word. A rule runs along the text, takes what it can of every optional part and gives
nothing back, and the rules of dates and numbers fail in the end if a word goes on. The scanner
`literal?` instead takes the whole word and classifies it afterwards. Both find the same arguments
(`literal?_eq_argument?`).

A rule that gives nothing back can miss a text that could be taken apart in another way.
`Rule.Reads` says that it does not, as long as what follows the text cannot be taken for a further
part of it; the rules are shown to read their languages by one lemma for each way of building rules.
-/

namespace RecordFilter.Filter

open Text

/-- A rule takes something from the head of a text and leaves the rest, or it fails. -/
abbrev Rule := List Char → Option (List Char)

namespace Rule

variable {p : Char → Bool} {r q : Rule} {L M : Language Char} {F G : List Char → Prop}
  {s w rest : List Char}

/-! ## Building rules -/

/-- One character with a property. -/
def one (p : Char → Bool) : Rule
  | [] => none
  | c :: s => if p c then some s else none

/-- This character. -/
def char (c : Char) : Rule := one (· == c)

/-- One rule behind another. -/
def andThen (r q : Rule) : Rule := fun s => (r s).bind q

/-- The first rule, or the second one where the first fails. -/
def orElse (r q : Rule) : Rule := fun s => (r s).or (q s)

/-- The rule where it does not fail, and nothing elsewhere. -/
def optional (r : Rule) : Rule := fun s => (r s).or (some s)

/-- So many characters with a property. -/
def times (p : Char → Bool) : ℕ → Rule
  | 0 => some
  | n + 1 => (one p).andThen (times p n)

/-- One or more characters with a property, as many as there are. -/
def oneOrMore (p : Char → Bool) : Rule := (one p).andThen fun s => some (s.dropWhile p)

/-- Nothing, where no word goes on. -/
def wordEnd : Rule
  | [] => some []
  | c :: s => if isWordChar c then none else some (c :: s)

/-! ## The rules of words -/

/-- `Z`, or a sign, hours and minutes. -/
def zone : Rule :=
  (char 'Z').orElse ((one fun c => c == '+' || c == '-').andThen
    ((times Char.isDigit 2).andThen ((char ':').andThen (times Char.isDigit 2))))

/-- A point and digits. -/
def fraction : Rule := (char '.').andThen (oneOrMore Char.isDigit)

/-- Seconds, perhaps with a fraction. -/
def seconds : Rule := (char ':').andThen ((times Char.isDigit 2).andThen fraction.optional)

/-- Hours and minutes, perhaps with seconds and a zone. -/
def time : Rule :=
  (char 'T').andThen ((times Char.isDigit 2).andThen ((char ':').andThen
    ((times Char.isDigit 2).andThen (seconds.optional.andThen zone.optional))))

/-- Year, month and day, perhaps with a time. -/
def day : Rule :=
  (times Char.isDigit 4).andThen ((char '-').andThen ((times Char.isDigit 2).andThen
    ((char '-').andThen ((times Char.isDigit 2).andThen time.optional))))

/-- Digits, perhaps with a minus before them and a fraction behind them. -/
def numeral : Rule :=
  (char '-').optional.andThen ((oneOrMore Char.isDigit).andThen fraction.optional)

/-- A date that is a whole word. -/
def date : Rule := day.andThen wordEnd

/-- A number that is a whole word. -/
def number : Rule := numeral.andThen wordEnd

/-- A word of any kind. -/
def bare : Rule := oneOrMore isWordChar

/-! ## The language of a rule -/

/-- The texts with a property. -/
def texts (P : List Char → Prop) : Language Char := {w | P w}

/-- The rule reads a language: all that it takes is in the language, and a text of the language is
taken before every rest with a property. -/
structure Reads (r : Rule) (L : Language Char) (F : List Char → Prop) : Prop where
  sound : ∀ {s rest : List Char}, r s = some rest → ∃ w ∈ L, s = w ++ rest
  complete : ∀ {w rest : List Char}, w ∈ L → F rest → r (w ++ rest) = some rest

theorem reads_one : (one p).Reads (texts fun w => ∃ c, p c = true ∧ w = [c]) fun _ => True where
  sound {s rest} h := by
    cases s with
    | nil => cases h
    | cons c s =>
      rw [one] at h
      split at h
      · next hc =>
        cases h
        exact ⟨[c], ⟨c, hc, rfl⟩, rfl⟩
      · cases h
  complete := by
    rintro _ rest ⟨c, hc, rfl⟩ -
    exact if_pos hc

theorem reads_char (c : Char) : (char c).Reads (texts (· = [c])) fun _ => True where
  sound h := by
    obtain ⟨w, ⟨d, hd, rfl⟩, rfl⟩ := reads_one.sound h
    exact ⟨[d], congrArg ([·]) (beq_iff_eq.1 hd), rfl⟩
  complete := by
    rintro _ rest rfl -
    exact reads_one.complete ⟨c, beq_self_eq_true c, rfl⟩ trivial

theorem one_eq_none (hs : Stops p s) : one p s = none := by
  cases s with
  | nil => rfl
  | cons c s => exact if_neg (Bool.eq_false_iff.1 (stops_cons.1 hs))

theorem andThen_eq_none (h : r s = none) : r.andThen q s = none := by
  rw [andThen, h]
  rfl

/-- What the second rule takes must not be taken for a part of what the first one takes. -/
theorem Reads.andThen (hr : r.Reads L F) (hq : q.Reads M G)
    (hF : ∀ w ∈ M, ∀ rest, G rest → F (w ++ rest)) : (r.andThen q).Reads (L * M) G where
  sound h := by
    obtain ⟨t, hfirst, hsecond⟩ := Option.bind_eq_some_iff.1 h
    obtain ⟨v, hv, rfl⟩ := hr.sound hfirst
    obtain ⟨w, hw, rfl⟩ := hq.sound hsecond
    exact ⟨v ++ w, Language.append_mem_mul hv hw, (List.append_assoc _ _ _).symm⟩
  complete := by
    intro u rest hu hrest
    obtain ⟨v, hv, w, hw, rfl⟩ := Language.mem_mul.1 hu
    rw [List.append_assoc]
    refine Option.bind_eq_some_iff.2 ⟨w ++ rest, hr.complete hv (hF w hw rest hrest), ?_⟩
    exact hq.complete hw hrest

/-- A rule that takes so many characters may stand before anything. -/
theorem Reads.before (hr : r.Reads L fun _ => True) (hq : q.Reads M G) :
    (r.andThen q).Reads (L * M) G :=
  hr.andThen hq fun _ _ _ _ => trivial

/-- An optional part is left out only where the rest does not begin like it. -/
theorem Reads.optional (hr : r.Reads L F) (hF : ∀ rest, G rest → F rest)
    (hnone : ∀ rest, G rest → r rest = none) : r.optional.Reads (1 + L) G where
  sound {s rest} h := by
    unfold Rule.optional at h
    cases hs : r s with
    | none =>
      rw [hs] at h
      cases h
      exact ⟨[], .inl rfl, rfl⟩
    | some t =>
      rw [hs] at h
      cases h
      obtain ⟨w, hw, rfl⟩ := hr.sound hs
      exact ⟨w, .inr hw, rfl⟩
  complete := by
    rintro w rest (hw | hw) hrest
    · obtain rfl : w = [] := hw
      rw [List.nil_append, Rule.optional, hnone rest hrest]
      rfl
    · rw [Rule.optional, hr.complete hw (hF rest hrest)]
      rfl

/-- No text of the second language begins like one of the first. -/
theorem Reads.orElse (hr : r.Reads L F) (hq : q.Reads M F)
    (hnone : ∀ w ∈ M, ∀ rest, r (w ++ rest) = none) : (r.orElse q).Reads (L + M) F where
  sound {s rest} h := by
    unfold Rule.orElse at h
    rcases Option.or_eq_some_iff.1 h with h | ⟨-, h⟩
    · obtain ⟨w, hw, rfl⟩ := hr.sound h
      exact ⟨w, .inl hw, rfl⟩
    · obtain ⟨w, hw, rfl⟩ := hq.sound h
      exact ⟨w, .inr hw, rfl⟩
  complete := by
    rintro w rest (hw | hw) hrest
    · rw [Rule.orElse, hr.complete hw hrest]
      rfl
    · rw [Rule.orElse, hnone w hw rest]
      exact hq.complete hw hrest

theorem Reads.congr (hr : r.Reads L F) (h : ∀ w, w ∈ L ↔ w ∈ M) : r.Reads M F where
  sound hs := by
    obtain ⟨w, hw, rfl⟩ := hr.sound hs
    exact ⟨w, (h w).1 hw, rfl⟩
  complete hw := hr.complete ((h _).2 hw)

theorem reads_digits (n : ℕ) : (times Char.isDigit n).Reads (texts (Digits n)) fun _ => True := by
  induction n with
  | zero =>
    refine ⟨fun h => ⟨[], ⟨rfl, .nil⟩, Option.some.inj h⟩, ?_⟩
    rintro w rest ⟨hlength, -⟩ -
    rw [List.eq_nil_of_length_eq_zero hlength]
    rfl
  | succ n ih =>
    refine (reads_one.before ih).congr fun w => ?_
    constructor
    · rintro ⟨_, ⟨c, hc, rfl⟩, v, ⟨hlength, hv⟩, rfl⟩
      exact ⟨congrArg (· + 1) hlength, run_cons.2 ⟨hc, hv⟩⟩
    · rintro ⟨hlength, hw⟩
      obtain ⟨c, v, rfl⟩ := List.exists_cons_of_length_eq_add_one hlength
      obtain ⟨hc, hv⟩ := run_cons.1 hw
      exact ⟨[c], ⟨c, hc, rfl⟩, v, ⟨Nat.succ.inj hlength, hv⟩, rfl⟩

/-- A run is taken to its end. -/
theorem reads_oneOrMore : (oneOrMore p).Reads (texts fun w => w ≠ [] ∧ Run p w) (Stops p) where
  sound h := by
    obtain ⟨t, hfirst, hrest⟩ := Option.bind_eq_some_iff.1 h
    obtain ⟨_, ⟨c, hc, rfl⟩, rfl⟩ := reads_one.sound hfirst
    cases hrest
    refine ⟨c :: t.takeWhile p, ⟨List.cons_ne_nil _ _, run_cons.2 ⟨hc, run_takeWhile⟩⟩, ?_⟩
    exact congrArg (c :: ·) List.takeWhile_append_dropWhile.symm
  complete := by
    rintro w rest ⟨hne, hw⟩ hrest
    obtain ⟨c, w, rfl⟩ := List.exists_cons_of_ne_nil hne
    obtain ⟨hc, hw⟩ := run_cons.1 hw
    have hdrop := congrArg Prod.snd (splitWhile_eq_iff.2 ⟨hw, rfl, hrest⟩)
    rw [oneOrMore, Rule.andThen, List.cons_append, one, if_pos hc, Option.bind_some]
    exact congrArg some hdrop

/-! ## Dates -/

/-- The characters of a time before its zone. -/
def isClockChar (c : Char) : Bool := c.isDigit || c == '.' || c == ':'

theorem stops_mono {p' : Char → Bool} (h : ∀ c, p' c = true → p c = true) (hs : Stops p s) :
    Stops p' s := by
  intro c hc
  rw [← Bool.not_eq_true]
  exact fun hp => Bool.eq_false_iff.1 (hs c hc) (h c hp)

theorem char_eq_none {c : Char} (hc : p c = true) (hs : Stops p s) : char c s = none :=
  one_eq_none (stops_mono (fun d hd => by rwa [beq_iff_eq.1 hd]) hs)

theorem reads_zone : zone.Reads (texts IsZone) fun _ => True := by
  have hoffset := (reads_digits 2).before ((reads_char ':').before (reads_digits 2))
  have hsigned := (reads_one (p := fun c => c == '+' || c == '-')).before hoffset
  refine ((reads_char 'Z').orElse hsigned ?_).congr fun w => or_congr Iff.rfl ?_
  · rintro _ ⟨_, ⟨c, hc, rfl⟩, v, -, rfl⟩ rest
    refine one_eq_none (stops_cons.2 (beq_eq_false_iff_ne.2 ?_))
    rintro rfl
    cases hc
  constructor
  · rintro ⟨_, ⟨sign, hsign, rfl⟩, _, ⟨hours, hh, _, ⟨_, rfl, minutes, hm, rfl⟩, rfl⟩, rfl⟩
    rw [Bool.or_eq_true, beq_iff_eq, beq_iff_eq] at hsign
    exact ⟨sign, hours, minutes, rfl, hsign, hh, hm⟩
  · rintro ⟨sign, hours, minutes, rfl, hsign, hh, hm⟩
    rw [← beq_iff_eq, ← beq_iff_eq (a := sign) (b := '-'), ← Bool.or_eq_true] at hsign
    exact ⟨[sign], ⟨sign, hsign, rfl⟩, _, ⟨hours, hh, _, ⟨_, rfl, minutes, hm, rfl⟩, rfl⟩, rfl⟩

theorem reads_fraction : fraction.Reads (texts IsFraction) (Stops Char.isDigit) := by
  refine ((reads_char '.').before reads_oneOrMore).congr fun w => ?_
  constructor
  · rintro ⟨_, rfl, places, hplaces, rfl⟩
    exact ⟨places, rfl, hplaces⟩
  · rintro ⟨places, rfl, hplaces⟩
    exact ⟨_, rfl, places, hplaces, rfl⟩

/-- A fraction is left out only where the rest begins neither with a point nor with a digit. -/
theorem reads_optional_fraction (hdigit : ∀ c, c.isDigit = true → p c = true)
    (hpoint : p '.' = true) : fraction.optional.Reads (1 + texts IsFraction) (Stops p) :=
  reads_fraction.optional (fun _ => stops_mono hdigit)
    fun _ hrest => andThen_eq_none (char_eq_none hpoint hrest)

theorem isClockChar_of_isDigit (c : Char) (h : c.isDigit = true) : isClockChar c = true := by
  rw [isClockChar, h]
  rfl

theorem reads_seconds : seconds.Reads (texts IsSeconds) (Stops isClockChar) := by
  have hfraction := reads_optional_fraction isClockChar_of_isDigit rfl
  refine ((reads_char ':').before ((reads_digits 2).before hfraction)).congr fun w => ?_
  constructor
  · rintro ⟨_, rfl, _, ⟨whole, hw, fraction, hfraction, rfl⟩, rfl⟩
    exact ⟨whole, fraction, rfl, hw, hfraction⟩
  · rintro ⟨whole, fraction, rfl, hw, hfraction⟩
    exact ⟨_, rfl, _, ⟨whole, hw, fraction, hfraction, rfl⟩, rfl⟩

theorem isWordChar_of_isClockChar (c : Char) (h : isClockChar c = true) : isWordChar c = true := by
  rw [isClockChar, Bool.or_eq_true, Bool.or_eq_true, beq_iff_eq, beq_iff_eq] at h
  rcases h with (h | rfl) | rfl
  · exact isWordChar_of_isDigit h
  · rfl
  · rfl

theorem reads_time : time.Reads (texts IsTime) (Stops isWordChar) := by
  have hseconds : seconds.optional.Reads (1 + texts IsSeconds) (Stops isClockChar) :=
    reads_seconds.optional (fun _ => id) fun _ hrest => andThen_eq_none (char_eq_none rfl hrest)
  have hzone : zone.optional.Reads (1 + texts IsZone) (Stops isWordChar) := by
    refine reads_zone.optional (fun _ _ => trivial) fun rest hrest => ?_
    have hsign : one (fun c => c == '+' || c == '-') rest = none := by
      refine one_eq_none (stops_mono (fun c hc => ?_) hrest)
      rw [Bool.or_eq_true, beq_iff_eq, beq_iff_eq] at hc
      rcases hc with rfl | rfl <;> rfl
    rw [zone, Rule.orElse, char_eq_none rfl hrest, andThen_eq_none hsign]
    rfl
  -- neither a zone nor the end of the word is taken for a part of the seconds
  have hfollow : ∀ w ∈ 1 + texts IsZone, ∀ rest, Stops isWordChar rest →
      Stops isClockChar (w ++ rest) := by
    rintro w (rfl | rfl | ⟨sign, hours, minutes, rfl, hsign, -⟩) rest hrest
    · exact stops_mono isWordChar_of_isClockChar hrest
    · exact stops_cons.2 rfl
    · refine stops_cons.2 ?_
      rcases hsign with rfl | rfl <;> rfl
  refine ((reads_char 'T').before ((reads_digits 2).before ((reads_char ':').before
    ((reads_digits 2).before (hseconds.andThen hzone hfollow))))).congr fun w => ?_
  constructor
  · rintro ⟨_, rfl, _, ⟨hours, hh, _, ⟨_, rfl, _, ⟨minutes, hm, _,
      ⟨seconds, hseconds, zone, hzone, rfl⟩, rfl⟩, rfl⟩, rfl⟩, rfl⟩
    exact ⟨hours, minutes, seconds, zone, rfl, hh, hm, hseconds, hzone⟩
  · rintro ⟨hours, minutes, seconds, zone, rfl, hh, hm, hseconds, hzone⟩
    exact ⟨_, rfl, _, ⟨hours, hh, _, ⟨_, rfl, _, ⟨minutes, hm, _,
      ⟨seconds, hseconds, zone, hzone, rfl⟩, rfl⟩, rfl⟩, rfl⟩, rfl⟩

theorem reads_day : day.Reads (texts IsDate) (Stops isWordChar) := by
  have htime : time.optional.Reads (1 + texts IsTime) (Stops isWordChar) :=
    reads_time.optional (fun _ => id) fun _ hrest => andThen_eq_none (char_eq_none rfl hrest)
  refine ((reads_digits 4).before ((reads_char '-').before ((reads_digits 2).before
    ((reads_char '-').before ((reads_digits 2).before htime))))).congr fun w => ?_
  constructor
  · rintro ⟨year, hy, _, ⟨_, rfl, _, ⟨month, hm, _, ⟨_, rfl, _, ⟨day, hd, time, htime, rfl⟩, rfl⟩,
      rfl⟩, rfl⟩, rfl⟩
    exact ⟨year, month, day, time, rfl, hy, hm, hd, htime⟩
  · rintro ⟨year, month, day, time, rfl, hy, hm, hd, htime⟩
    exact ⟨year, hy, _, ⟨_, rfl, _, ⟨month, hm, _, ⟨_, rfl, _, ⟨day, hd, time, htime, rfl⟩, rfl⟩,
      rfl⟩, rfl⟩, rfl⟩

/-! ## Numbers -/

theorem reads_numeral : numeral.Reads (texts IsNumber) (Stops isWordChar) := by
  have hfraction := reads_optional_fraction (fun _ => isWordChar_of_isDigit) rfl
  have hdigits := (reads_oneOrMore (p := Char.isDigit)).andThen hfraction (by
    rintro w (rfl | ⟨places, rfl, -⟩) rest hrest
    · exact stops_mono (fun _ => isWordChar_of_isDigit) hrest
    · exact stops_cons.2 rfl)
  have hsign : (char '-').optional.Reads (1 + texts (· = ['-'])) (Stops (· == '-')) :=
    (reads_char '-').optional (fun _ _ => trivial) fun _ hrest => one_eq_none hrest
  -- a minus is no digit
  have hfollow : ∀ w ∈ (texts fun w => w ≠ [] ∧ Run Char.isDigit w) * (1 + texts IsFraction),
      ∀ rest, Stops isWordChar rest → Stops (· == '-') (w ++ rest) := by
    rintro _ ⟨whole, ⟨hne, hwhole⟩, v, -, rfl⟩ rest -
    obtain ⟨c, whole, rfl⟩ := List.exists_cons_of_ne_nil hne
    refine stops_cons.2 (beq_eq_false_iff_ne.2 ?_)
    rintro rfl
    cases hwhole _ List.mem_cons_self
  refine (hsign.andThen hdigits hfollow).congr fun w => ?_
  constructor
  · rintro ⟨sign, hsign, _, ⟨whole, hw, fraction, hfraction, rfl⟩, rfl⟩
    exact ⟨sign, whole, fraction, (List.append_assoc _ _ _).symm, hsign, hw, hfraction⟩
  · rintro ⟨sign, whole, fraction, rfl, hsign, hw, hfraction⟩
    exact ⟨sign, hsign, _, ⟨whole, hw, fraction, hfraction, rfl⟩, (List.append_assoc _ _ _).symm⟩

/-! ## Whole words -/

theorem wordEnd_eq_some_iff : wordEnd s = some rest ↔ s = rest ∧ Stops isWordChar rest := by
  cases s with
  | nil =>
    constructor
    · rintro ⟨⟩
      exact ⟨rfl, stops_nil⟩
    · rintro ⟨rfl, -⟩
      rfl
  | cons c s =>
    rw [wordEnd]
    split
    · next hc =>
      constructor
      · intro h
        cases h
      · rintro ⟨rfl, hrest⟩
        rw [stops_cons.1 hrest] at hc
        cases hc
    · next hc =>
      rw [Option.some.injEq]
      refine ⟨fun h => ⟨h, ?_⟩, fun h => h.1⟩
      rw [← h]
      exact stops_cons.2 (Bool.eq_false_iff.2 hc)

/-- A rule before the end of a word takes a whole word of its language, if there is one. -/
theorem Reads.word_eq_some_iff (hr : r.Reads L (Stops isWordChar)) :
    r.andThen wordEnd s = some rest ↔ ∃ w ∈ L, s = w ++ rest ∧ Stops isWordChar rest := by
  constructor
  · intro h
    obtain ⟨t, ht, h⟩ := Option.bind_eq_some_iff.1 h
    obtain ⟨rfl, hrest⟩ := wordEnd_eq_some_iff.1 h
    obtain ⟨w, hw, rfl⟩ := hr.sound ht
    exact ⟨w, hw, rfl, hrest⟩
  · rintro ⟨w, hw, rfl, hrest⟩
    exact Option.bind_eq_some_iff.2
      ⟨rest, hr.complete hw hrest, wordEnd_eq_some_iff.2 ⟨rfl, hrest⟩⟩

/-- The rule fails at a word that is not in the language, however it could be taken apart. -/
theorem Reads.word_eq_none (hr : r.Reads L (Stops isWordChar)) (hL : ∀ w ∈ L, IsWord w)
    (hw : IsWord w) (hrest : Stops isWordChar rest) (hmem : w ∉ L) :
    r.andThen wordEnd (w ++ rest) = none := by
  rw [Option.eq_none_iff_forall_ne_some]
  intro t h
  obtain ⟨v, hv, heq, ht⟩ := hr.word_eq_some_iff.1 h
  -- the word is as long as it can be, so no other word stands here
  have hsplit := splitWhile_eq_iff.2 ⟨hw.2, rfl, hrest⟩
  rw [heq, splitWhile_eq_iff.2 ⟨(hL v hv).2, rfl, ht⟩] at hsplit
  exact hmem ((Prod.mk.inj hsplit).1 ▸ hv)

theorem Reads.word_eq_none_of_stops (hr : r.Reads L (Stops isWordChar)) (hL : ∀ w ∈ L, IsWord w)
    (hs : Stops isWordChar s) : r.andThen wordEnd s = none := by
  rw [Option.eq_none_iff_forall_ne_some]
  intro t h
  obtain ⟨w, hw, rfl, -⟩ := hr.word_eq_some_iff.1 h
  obtain ⟨hne, hrun⟩ := hL w hw
  obtain ⟨c, w, rfl⟩ := List.exists_cons_of_ne_nil hne
  rw [List.cons_append, stops_cons, hrun c List.mem_cons_self] at hs
  cases hs

/-! ## Arguments -/

/-- What a rule takes, as an argument of some form. -/
def argument (r : Rule) (form : String → Literal) (s : List Char) : Option (Literal × List Char) :=
  (r s).map fun rest => (form (String.ofList (before s rest)), rest)

theorem argument_append {form : String → Literal} (h : r (w ++ rest) = some rest) :
    r.argument form (w ++ rest) = some (form (String.ofList w), rest) := by
  rw [argument, h, Option.map_some, before_append]

theorem argument_eq_none {form : String → Literal} (h : r s = none) : r.argument form s = none := by
  rw [argument, h]
  rfl

/-- A quote, everything up to the closing one, and that quote. -/
def quoted : Rule
  | [] => none
  | c :: s => if c = '\'' ∨ c = '"' then (closing? c s).map Prod.snd else none

theorem quoted_argument {c : Char} (hc : c = '\'' ∨ c = '"') (s : List Char) :
    quoted.argument .quoted (c :: s) =
      (closing? c s).map fun (text, rest) => (.quoted (String.ofList (c :: text)), rest) := by
  have hquoted : quoted (c :: s) = (closing? c s).map Prod.snd := if_pos hc
  cases hclosing : closing? c s with
  | none =>
    rw [hclosing] at hquoted
    exact argument_eq_none hquoted
  | some r =>
    obtain ⟨text, rest⟩ := r
    rw [hclosing] at hquoted
    obtain ⟨-, -, -, rfl⟩ := quotedBody_of_closing? hclosing
    exact argument_append (w := c :: text) hquoted

end Rule

/-- The argument at the head of a text, by the first of the rules that does not fail. -/
def argument? (s : List Char) : Option (Literal × List Char) :=
  (Rule.quoted.argument .quoted s).or ((Rule.date.argument .date s).or
    ((Rule.number.argument .number s).or (Rule.bare.argument .bare s)))

open Rule in
/-- At a whole word the rules give the form that the whole word has. -/
theorem argument?_word {w rest : List Char} (hw : IsWord w) (hrest : Stops isWordChar rest) :
    argument? (w ++ rest) = some (.ofWord w, rest) := by
  obtain ⟨c, v, rfl⟩ := List.exists_cons_of_ne_nil hw.1
  have hquote : ¬ (c = '\'' ∨ c = '"') := by
    have hc := hw.2 c List.mem_cons_self
    rintro (rfl | rfl) <;> cases hc
  have hnoquoted : quoted (c :: v ++ rest) = none := if_neg hquote
  rw [argument?, argument_eq_none hnoquoted, Option.none_or, Literal.ofWord]
  split
  · next hdate =>
    have htaken : date (c :: v ++ rest) = some rest :=
      reads_day.word_eq_some_iff.2 ⟨_, isDate_iff.1 hdate, rfl, hrest⟩
    rw [argument_append htaken, Option.some_or]
  next hdate =>
  have hnodate : date (c :: v ++ rest) = none :=
    reads_day.word_eq_none (fun _ => IsDate.isWord) hw hrest (mt isDate_iff.2 hdate)
  rw [argument_eq_none hnodate, Option.none_or]
  split
  · next hnumber =>
    have htaken : number (c :: v ++ rest) = some rest :=
      reads_numeral.word_eq_some_iff.2 ⟨_, isNumber_iff.1 hnumber, rfl, hrest⟩
    rw [argument_append htaken, Option.some_or]
  · next hnumber =>
    have hnonumber : number (c :: v ++ rest) = none :=
      reads_numeral.word_eq_none (fun _ => IsNumber.isWord) hw hrest (mt isNumber_iff.2 hnumber)
    have htaken : bare (c :: v ++ rest) = some rest := reads_oneOrMore.complete hw hrest
    rw [argument_eq_none hnonumber, Option.none_or, argument_append htaken]

open Rule in
/-- Where no word begins, only a quoted text can stand. -/
theorem argument?_of_stops {s : List Char} (hs : Stops isWordChar s) :
    argument? s = quoted.argument .quoted s := by
  have hdate : date s = none := reads_day.word_eq_none_of_stops (fun _ => IsDate.isWord) hs
  have hnumber : number s = none :=
    reads_numeral.word_eq_none_of_stops (fun _ => IsNumber.isWord) hs
  have hbare : bare s = none := andThen_eq_none (one_eq_none hs)
  rw [argument?, argument_eq_none hdate, argument_eq_none hnumber, argument_eq_none hbare]
  exact Option.or_none

/-- **Rules that give nothing back find every argument.** The scanner, which classifies whole words,
finds at the head of every text what the first of the rules takes. -/
theorem literal?_eq_argument? (s : List Char) : literal? s = argument? s := by
  cases s with
  | nil => rfl
  | cons c s =>
    rw [literal?]
    split
    · next hc =>
      have hstops : Stops isWordChar (c :: s) := by
        refine stops_cons.2 ?_
        rcases hc with rfl | rfl <;> rfl
      rw [argument?_of_stops hstops, Rule.quoted_argument hc]
    next hc =>
    split
    · next hword =>
      have hw : IsWord (c :: s.takeWhile isWordChar) :=
        ⟨List.cons_ne_nil _ _, run_cons.2 ⟨hword, run_takeWhile⟩⟩
      rw [← argument?_word hw stops_dropWhile, List.cons_append, List.takeWhile_append_dropWhile]
    · next hword =>
      rw [argument?_of_stops (stops_cons.2 (Bool.eq_false_iff.2 hword))]
      exact (Rule.argument_eq_none (if_neg hc)).symm

end RecordFilter.Filter
