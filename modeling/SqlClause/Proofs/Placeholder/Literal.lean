import SqlClause.Proofs.Placeholder.Gaps

/-!
Literals as a database reads them.

`lex` reads a clause as a database does.  A quote opens a literal, a doubled quote within it is one
quote of its content, and a quote that no other follows at once closes it.  For each text this is
the only reading (`lex_eq_iff`).  A scan for placeholders knows nothing of doubled quotes.  It
leaves the literal at the first of them and enters it again at the second, so the two disagree
between the quotes, where no question mark can stand.  Behind every lexeme they agree again, and
the question marks outside literals are the same to both (`placeholders_eq_lexed`).
-/

namespace SqlClause
namespace Placeholder

/-- A character outside literals, or a literal with its content. -/
inductive Lexeme where
  | plain (c : Char)
  | literal (content : List Char)
  /-- A literal that goes on to the end of the text. -/
  | unclosed (content : List Char)
  deriving DecidableEq

mutual

def lex : List Char → List Lexeme
  | [] => []
  | c :: rest => if c = quote then lexLiteral [] rest else .plain c :: lex rest

/-- Reads on in a literal.  What has been read of its content is given. -/
def lexLiteral (content : List Char) : List Char → List Lexeme
  | [] => [.unclosed content]
  | [c] => if c = quote then [.literal content] else [.unclosed (content ++ [c])]
  | c :: d :: rest =>
    if c = quote then
      if d = quote then lexLiteral (content ++ [quote]) rest
      else .literal content :: lex (d :: rest)
    else lexLiteral (content ++ [c]) (d :: rest)

end

/-! ## Readings of a text -/

/-- Content as it is written, each quote twice. -/
def escape (content : List Char) : List Char :=
  content.flatMap fun c => if c = quote then [quote, quote] else [c]

def Lexeme.written : Lexeme → List Char
  | plain c => [c]
  | literal content => quote :: escape content ++ [quote]
  | unclosed content => quote :: escape content

def written (lexemes : List Lexeme) : List Char := lexemes.flatMap Lexeme.written

/-- Lexemes that can stand together.  What follows a literal does not begin with a quote, or the two
quotes would be read as one of the content. -/
inductive Lexed : List Lexeme → Prop where
  | nil : Lexed []
  | plain {c : Char} {rest : List Lexeme} (hc : c ≠ quote) (h : Lexed rest) :
    Lexed (.plain c :: rest)
  | literal (content : List Char) {rest : List Lexeme} (hnext : (written rest).head? ≠ some quote)
    (h : Lexed rest) : Lexed (.literal content :: rest)
  | unclosed (content : List Char) : Lexed [.unclosed content]

structure Reading (text : List Char) (lexemes : List Lexeme) : Prop where
  lexed : Lexed lexemes
  written_eq : written lexemes = text

theorem written_cons (l : Lexeme) (rest : List Lexeme) :
    written (l :: rest) = l.written ++ written rest := List.flatMap_cons

theorem escape_cons (c : Char) (content : List Char) :
    escape (c :: content) = (if c = quote then [quote, quote] else [c]) ++ escape content :=
  List.flatMap_cons

theorem escape_append (a b : List Char) : escape (a ++ b) = escape a ++ escape b :=
  List.flatMap_append

theorem escape_quote : escape [quote] = [quote, quote] := rfl

theorem escape_char {c : Char} (h : c ≠ quote) : escape [c] = [c] := by
  rw [escape_cons, if_neg h]
  rfl

namespace Reading

theorem plain {c : Char} (hc : c ≠ quote) {text : List Char} {lexemes : List Lexeme}
    (h : Reading text lexemes) : Reading (c :: text) (.plain c :: lexemes) :=
  ⟨.plain hc h.lexed, congrArg (c :: ·) h.written_eq⟩

theorem literal (content : List Char) {text : List Char} {lexemes : List Lexeme}
    (hnext : text.head? ≠ some quote) (h : Reading text lexemes) :
    Reading (quote :: escape content ++ quote :: text) (.literal content :: lexemes) := by
  obtain ⟨hlexed, rfl⟩ := h
  refine ⟨.literal content hnext hlexed, ?_⟩
  rw [written_cons, Lexeme.written, List.append_assoc]
  rfl

theorem unclosed (content : List Char) :
    Reading (quote :: escape content) [.unclosed content] :=
  ⟨.unclosed content, List.append_nil _⟩

end Reading

mutual

theorem reading_lex : ∀ text : List Char, Reading text (lex text)
  | [] => ⟨.nil, rfl⟩
  | c :: rest => by
    rw [lex]
    by_cases hc : c = quote
    · rw [if_pos hc, hc]
      exact reading_lexLiteral [] rest
    · rw [if_neg hc]
      exact (reading_lex rest).plain hc

theorem reading_lexLiteral : ∀ content text : List Char,
    Reading (quote :: escape content ++ text) (lexLiteral content text)
  | content, [] => by
    rw [lexLiteral, List.append_nil]
    exact .unclosed content
  | content, [c] => by
    rw [lexLiteral]
    by_cases hc : c = quote
    · rw [if_pos hc, hc]
      exact .literal content (by simp) ⟨.nil, rfl⟩
    · have happend : quote :: escape content ++ [c] = quote :: escape (content ++ [c]) := by
        rw [escape_append, escape_char hc]
        rfl
      rw [if_neg hc, happend]
      exact .unclosed (content ++ [c])
  | content, c :: d :: rest => by
    rw [lexLiteral]
    by_cases hc : c = quote
    · rw [if_pos hc, hc]
      by_cases hd : d = quote
      · have hrest := reading_lexLiteral (content ++ [quote]) rest
        rw [escape_append, escape_quote] at hrest
        rw [if_pos hd, hd]
        simpa using hrest
      · rw [if_neg hd]
        exact (reading_lex (d :: rest)).literal content (by simpa using hd)
    · have hrest := reading_lexLiteral (content ++ [c]) (d :: rest)
      rw [escape_append, escape_char hc] at hrest
      rw [if_neg hc]
      simpa using hrest

end

theorem lexLiteral_char {c : Char} (hc : c ≠ quote) (content rest : List Char) :
    lexLiteral content (c :: rest) = lexLiteral (content ++ [c]) rest := by
  cases rest with
  | nil => rw [lexLiteral, lexLiteral, if_neg hc]
  | cons d rest => rw [lexLiteral, if_neg hc]

theorem lexLiteral_close {text : List Char} (hnext : text.head? ≠ some quote)
    (content : List Char) : lexLiteral content (quote :: text) = .literal content :: lex text := by
  cases text with
  | nil => rw [lexLiteral, if_pos rfl, lex]
  | cons d text =>
    have hd : d ≠ quote := fun hd => hnext (congrArg some hd)
    rw [lexLiteral, if_pos rfl, if_neg hd]

theorem lexLiteral_escape (front content text : List Char) :
    lexLiteral front (escape content ++ text) = lexLiteral (front ++ content) text := by
  induction content generalizing front with
  | nil => rw [List.append_nil]; rfl
  | cons c content ih =>
    have hsplit : front ++ c :: content = front ++ [c] ++ content := by simp
    rw [escape_cons, hsplit]
    by_cases hc : c = quote
    · rw [if_pos hc, hc, List.append_assoc]
      show lexLiteral front (quote :: quote :: (escape content ++ text)) = _
      rw [lexLiteral, if_pos rfl, if_pos rfl, ih]
    · rw [if_neg hc, List.append_assoc]
      show lexLiteral front (c :: (escape content ++ text)) = _
      rw [lexLiteral_char hc, ih]

theorem lex_written {lexemes : List Lexeme} (h : Lexed lexemes) :
    lex (written lexemes) = lexemes := by
  induction h with
  | nil => rfl
  | plain hc h ih =>
    rw [written_cons, Lexeme.written, List.singleton_append, lex, if_neg hc, ih]
  | literal content hnext h ih =>
    rw [written_cons, Lexeme.written, List.append_assoc, List.cons_append, lex, if_pos rfl,
      lexLiteral_escape, List.singleton_append, lexLiteral_close hnext, ih, List.nil_append]
  | unclosed content =>
    have hopen : lexLiteral [] (escape content ++ []) = lexLiteral content [] :=
      lexLiteral_escape [] content []
    rw [List.append_nil] at hopen
    show lex (quote :: escape content ++ []) = _
    rw [List.append_nil, lex, if_pos rfl, hopen, lexLiteral]

/-- Each text has one reading, and the lexer finds it. -/
theorem lex_eq_iff {text : List Char} {lexemes : List Lexeme} :
    lex text = lexemes ↔ Reading text lexemes := by
  constructor
  · rintro rfl
    exact reading_lex text
  · rintro ⟨hlexed, rfl⟩
    exact lex_written hlexed

example : lex "a = '' OR '''?''' = ? OR 'b''?".toList
    = ("a = ".toList.map .plain ++ .literal [] :: " OR ".toList.map .plain
      ++ .literal "'?'".toList :: " = ? OR ".toList.map .plain ++ [.unclosed "b'?".toList]) := by
  decide

/-! ## The scan over a literal -/

theorem literalAfter_escape (content : List Char) : literalAfter true (escape content) = true := by
  induction content with
  | nil => rfl
  | cons c content ih =>
    rw [escape_cons, literalAfter_append]
    by_cases hc : c = quote
    · rw [if_pos hc]
      exact ih
    · have hchar : literalAfter true [c] = true := if_neg hc
      rw [if_neg hc, hchar, ih]

/-- Between two quotes that stand for one the scan is outside, but it comes to no character there. -/
theorem countFrom_escape (content : List Char) : countFrom true (escape content) = 0 := by
  induction content with
  | nil => rfl
  | cons c content ih =>
    rw [escape_cons, countFrom_append]
    by_cases hc : c = quote
    · rw [if_pos hc]
      exact (Nat.zero_add _).trans ih
    · have hchar : literalAfter true [c] = true := if_neg hc
      rw [if_neg hc, countFrom_singleton (by simp), hchar, ih]

theorem Lexeme.countFrom_written {l : Lexeme} (h : l ≠ .plain mark) :
    countFrom false l.written = 0 := by
  cases l with
  | plain c =>
    have hc : c ≠ mark := fun hc => h (congrArg Lexeme.plain hc)
    exact countFrom_of_not_mem (by simpa [Lexeme.written] using hc.symm) false
  | literal content =>
    show countFrom true (escape content ++ [quote]) = 0
    rw [countFrom_append, countFrom_escape, literalAfter_escape]
    rfl
  | unclosed content => exact countFrom_escape content

theorem Lexed.tail {l : Lexeme} {rest : List Lexeme} (h : Lexed (l :: rest)) : Lexed rest := by
  cases h with
  | plain hc h => exact h
  | literal content hnext h => exact h
  | unclosed content => exact .nil

/-- Only at the end of the text can the scan be left inside a literal. -/
theorem Lexed.literalAfter_head {l : Lexeme} {rest : List Lexeme} (h : Lexed (l :: rest))
    (hrest : rest ≠ []) : literalAfter false l.written = false := by
  cases h with
  | plain hc h => exact if_neg hc
  | literal content hnext h =>
    show literalAfter true (escape content ++ [quote]) = false
    rw [literalAfter_append, literalAfter_escape]
    rfl
  | unclosed content => exact absurd rfl hrest

theorem Lexed.literalAfter_front {before after : List Lexeme} {l : Lexeme}
    (h : Lexed (before ++ l :: after)) : literalAfter false (written before) = false := by
  induction before with
  | nil => rfl
  | cons m before ih =>
    have hm : literalAfter false m.written = false := h.literalAfter_head (by simp)
    rw [written_cons, literalAfter_append, hm]
    exact ih h.tail

/-! ## Placeholders -/

/-- A question mark at which the scan is outside literals is a lexeme of its own. -/
theorem Lexed.exists_of_mark {lexemes : List Lexeme} (h : Lexed lexemes) {front back : List Char}
    (hw : written lexemes = front ++ mark :: back) (hout : literalAfter false front = false) :
    ∃ before after, lexemes = before ++ .plain mark :: after ∧ written before = front := by
  induction lexemes generalizing front with
  | nil => cases front <;> cases hw
  | cons l rest ih =>
    -- The mark stands behind the first lexeme, or in it, and in no other lexeme can it be outside.
    have hbehind : ∀ front', front = l.written ++ front' →
        written rest = front' ++ mark :: back →
        ∃ before after, l :: rest = before ++ .plain mark :: after ∧ written before = front := by
      rintro front' rfl hrest
      have hne : rest ≠ [] := by
        rintro rfl
        cases front' <;> cases hrest
      rw [literalAfter_append, h.literalAfter_head hne] at hout
      obtain ⟨before, after, rfl, rfl⟩ := ih h.tail hrest hout
      exact ⟨l :: before, after, rfl, rfl⟩
    rw [written_cons] at hw
    rcases List.append_eq_append_iff.mp hw with ⟨front', hfront, hrest⟩ | ⟨cut, hl, hcut⟩
    · exact hbehind front' hfront hrest
    · cases cut with
      | nil =>
        rw [List.append_nil] at hl
        exact hbehind [] (by rw [hl, List.append_nil]) hcut.symm
      | cons c cut =>
        obtain ⟨rfl, rfl⟩ := List.cons.inj hcut
        by_cases hmark : l = .plain mark
        · have hnil : front = [] := by
            have hlength := congrArg List.length hl
            simp only [hmark, Lexeme.written, List.length_append, List.length_cons,
              List.length_nil] at hlength
            exact List.eq_nil_of_length_eq_zero (by omega)
          exact ⟨[], rest, by rw [hmark]; rfl, hnil.symm⟩
        · have hzero := Lexeme.countFrom_written hmark
          rw [hl] at hzero
          rw [literalAfter_of_countFrom_eq_zero hzero] at hout
          cases hout

/-- The texts before, between and behind the question marks outside literals. -/
def pieces : List Lexeme → List Char × List (List Char)
  | [] => ([], [])
  | l :: rest =>
    let tail := pieces rest
    if l = .plain mark then ([], tail.1 :: tail.2) else (l.written ++ tail.1, tail.2)

theorem joined_pieces (lexemes : List Lexeme) :
    (pieces lexemes).1 ++ joined (pieces lexemes).2 = written lexemes := by
  induction lexemes with
  | nil => rfl
  | cons l rest ih =>
    rw [pieces, written_cons, ← ih]
    by_cases hl : l = .plain mark
    · rw [if_pos hl, hl, joined_cons]
      rfl
    · rw [if_neg hl, List.append_assoc]

theorem length_pieces (lexemes : List Lexeme) :
    (pieces lexemes).2.length = lexemes.count (.plain mark) := by
  induction lexemes with
  | nil => rfl
  | cons l rest ih =>
    rw [pieces]
    by_cases hl : l = .plain mark
    · rw [if_pos hl, hl, List.count_cons_self, ← ih]
      rfl
    · rw [if_neg hl, List.count_cons_of_ne hl, ← ih]

theorem Lexed.segmented {lexemes : List Lexeme} (h : Lexed lexemes) :
    Segmented false (pieces lexemes).1 (pieces lexemes).2 := by
  induction lexemes with
  | nil => rfl
  | cons l rest ih =>
    have hrest := ih h.tail
    rw [pieces]
    by_cases hl : l = .plain mark
    · rw [if_pos hl]
      exact ⟨rfl, rfl, hrest⟩
    · rw [if_neg hl]
      refine Segmented.append (Lexeme.countFrom_written hl) ?_
      by_cases hne : rest = []
      · rw [hne]
        rfl
      · rwa [h.literalAfter_head hne]

theorem count_append_mark_iff (front : String) :
    count (front ++ "?") = count front + 1 ↔ literalAfter false front.toList = false := by
  have hmark : count (front ++ "?")
      = count front + countFrom (literalAfter false front.toList) [mark] := by
    rw [count, String.toList_append, countFrom_append]
    rfl
  rw [hmark]
  cases literalAfter false front.toList with
  | false => simp [countFrom, mark, quote]
  | true => simp [countFrom]

/-- The question marks that are counted are those that the lexer reads outside literals, and these
are also the ones that numbering fills, with all text between them kept. -/
theorem placeholders_eq_lexed (sql : String) :
    count sql = (lex sql.toList).count (.plain mark) ∧
      (∀ front back, sql = front ++ "?" ++ back →
        (count (front ++ "?") = count front + 1 ↔
          ∃ before after, lex sql.toList = before ++ .plain mark :: after ∧
            written before = front.toList)) ∧
      ∀ values offset, values.length = (lex sql.toList).count (.plain mark) →
        let segments := pieces (lex sql.toList)
        let slots := assemble false segments.1 (values.zip segments.2)
        number sql values offset
          = .ok ⟨String.ofList (Slot.render (offset + 1) slots), Slot.params slots⟩ := by
  let lexemes := lex sql.toList
  obtain ⟨hlexed, hwritten⟩ := reading_lex sql.toList
  have hsegmented := hlexed.segmented
  have hjoined : (pieces lexemes).1 ++ joined (pieces lexemes).2 = sql.toList :=
    (joined_pieces lexemes).trans hwritten
  have hcount : count sql = lexemes.count (.plain mark) := by
    rw [count, ← hjoined, countFrom_joined hsegmented, length_pieces]
  refine ⟨hcount, fun front back hsql => ?_, fun values offset hvalues => ?_⟩
  · rw [count_append_mark_iff]
    constructor
    · intro hout
      have hsplit : written lexemes = front.toList ++ mark :: back.toList := by
        rw [hwritten, hsql]
        simp [mark]
      exact hlexed.exists_of_mark hsplit hout
    · rintro ⟨before, after, hsplit, hfront⟩
      have hat : Lexed (before ++ .plain mark :: after) := hsplit ▸ hlexed
      rw [← hfront]
      exact hat.literalAfter_front
  · exact number_of_segmented hsegmented hjoined (by rw [hvalues, length_pieces]) offset

end Placeholder
end SqlClause
