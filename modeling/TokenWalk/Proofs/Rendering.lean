import TokenWalk.Proofs.Seams

/-!
# Rendering

A row of kinds and texts can be written as a source text in many ways: a string literal has a choice
of quotes, and what stands between two lexemes can be any layout that begins with a blank.  All of
them have the same tokens.

* `separators` is the layout between two lexemes, and `skipped_of_mem_separators` shows that reading
  goes past it;
* `escaped` writes a text as the body of a string literal, and `decodes_escaped` reads it back;
* `Item` is what a token can be, `Item.spells` gives its lexeme, and `Lexeme.Spells.allows` shows
  that there are no other tokens;
* `ofSource_rendered` puts both directions together.
-/

namespace TokenWalk

open Text
open scoped Computability

/-! ## Layout -/

/-- One blank, one line comment with its line end, or one comment with its end. -/
def gap : Language Char :=
  Rule.one isBlank + (Rule.lineComment.language * Rule.char '\n' + Rule.blockComment.language)

/-- The layout that can stand between two lexemes. -/
def separators : Language Char :=
  Rule.one isBlank * gap∗

theorem blank_mem_separators {b : Char} (h : isBlank b = true) : [b] ∈ separators :=
  Rule.mem_one_mul.mpr ⟨b, [], h, Language.nil_mem_kstar gap, rfl⟩

/-- Reading goes past a text without a trace, whatever follows it. -/
def Skipped (w : List Char) : Prop :=
  ∀ source mark rest, Token.ofPieces source (pieces mark (w ++ rest)) =
    Token.ofPieces source (pieces (mark.after w) rest)

theorem skipped_nil : Skipped [] :=
  fun _ _ _ => rfl

theorem Skipped.append {v w : List Char} (hv : Skipped v) (hw : Skipped w) : Skipped (v ++ w) := by
  intro source mark rest
  rw [List.append_assoc, hv, hw, Mark.after_append]

/-- Reading goes past a piece of layout. -/
theorem ofPieces_layout {rule : Rule} {w rest : List Char} (h : rule.Munched w rest)
    (hlayout : rule.isLayout = true) (source : List Char) (mark : Mark) :
    Token.ofPieces source (pieces mark (w ++ rest)) =
      Token.ofPieces source (pieces (mark.after w) rest) := by
  have hsound : Lexeme.Sound ⟨rule, w⟩ := Lexeme.sound_of_isLayout hlayout
  rw [pieces_of_sound (l := ⟨rule, w⟩) h hsound,
    ofPieces_none (Lexeme.token?_of_isLayout (l := ⟨rule, w⟩) hlayout _ _)]

theorem skipped_newline : Skipped ['\n'] := by
  intro source mark rest
  have hfirst : Rule.first '\n' rest = (.newline, 0) := rfl
  have hmunched := Rule.munched_of_first hfirst
  rw [List.take_zero, List.drop_zero] at hmunched
  exact ofPieces_layout hmunched rfl source mark

/-- The blanks of a line are one piece, so reading them one by one leads to the same place. -/
theorem ofPieces_spaces (source : List Char) (mark : Mark) (cs : List Char) :
    Token.ofPieces source (pieces mark cs) =
      Token.ofPieces source
        (pieces (mark.after (cs.takeWhile Rule.isSpace)) (cs.dropWhile Rule.isSpace)) := by
  cases cs with
  | nil => rfl
  | cons c cs =>
    by_cases hspace : Rule.isSpace c = true
    · have hfirst : Rule.first c cs = (.blank, Rule.run Rule.isSpace cs) := by
        refine Rule.first_eq_iff.mpr ⟨by simp [Rule.extent?, hspace], fun other hrank => ?_⟩
        cases other with
        | newline =>
          have hline : c ≠ '\n' := by
            rintro rfl
            cases hspace
          simp [Rule.extent?, hline]
        | _ => exact absurd hrank (by decide)
      have hmunched := Rule.munched_of_first hfirst
      have hread := ofPieces_layout hmunched rfl source mark
      rw [List.cons_append, List.take_append_drop] at hread
      rw [hread, List.takeWhile_cons_of_pos hspace, List.dropWhile_cons_of_pos hspace,
        Rule.take_run, Rule.drop_run]
    · rw [List.takeWhile_cons_of_neg hspace, List.dropWhile_cons_of_neg hspace]
      rfl

theorem skipped_blank {b : Char} (h : isBlank b = true) : Skipped [b] := by
  by_cases hline : b = '\n'
  · rw [hline]
    exact skipped_newline
  · intro source mark rest
    have hspace : Rule.isSpace b = true := by simp [Rule.isSpace, h, hline]
    rw [List.singleton_append, ofPieces_spaces, List.takeWhile_cons_of_pos hspace,
      List.dropWhile_cons_of_pos hspace, ofPieces_spaces source (mark.after [b]) rest]
    rfl

theorem skipped_lineComment {w : List Char} (h : w ∈ Rule.lineComment.language) :
    Skipped (w ++ ['\n']) := by
  intro source mark rest
  rw [List.append_assoc, List.singleton_append,
    ofPieces_layout (Rule.munched_lineComment h rest) rfl, Mark.after_append]
  exact skipped_newline source _ rest

theorem skipped_blockComment {w : List Char} (h : w ∈ Rule.blockComment.language) : Skipped w :=
  fun source mark rest => ofPieces_layout (Rule.munched_blockComment h rest) rfl source mark

theorem skipped_of_mem_gap {w : List Char} (h : w ∈ gap) : Skipped w := by
  rcases h with ⟨b, hb, rfl⟩ | hcomment | hcomment
  · exact skipped_blank hb
  · obtain ⟨v, hv, u, hu, rfl⟩ := Language.mem_mul.mp hcomment
    rw [Rule.mem_char.mp hu]
    exact skipped_lineComment hv
  · exact skipped_blockComment hcomment

theorem skipped_flatten {ws : List (List Char)} (h : ∀ w ∈ ws, Skipped w) :
    Skipped ws.flatten := by
  induction ws with
  | nil => exact skipped_nil
  | cons w ws ih =>
    rw [List.flatten_cons]
    exact (h w List.mem_cons_self).append (ih fun v hv => h v (List.mem_cons_of_mem w hv))

theorem skipped_of_mem_separators {w : List Char} (h : w ∈ separators) : Skipped w := by
  obtain ⟨b, v, hb, ⟨gaps, rfl, hgaps⟩, rfl⟩ := Rule.mem_one_mul.mp h
  exact (skipped_blank hb).append (skipped_flatten fun w hw => skipped_of_mem_gap (hgaps w hw))

/-! ## String literals -/

/-- The quotes of string literals. -/
inductive Quote where
  | double
  | single
  deriving DecidableEq, Repr

/-- The quote character. -/
def Quote.char : Quote → Char
  | .double => '"'
  | .single => '\''

/-- One character of a text in the body of a string literal. -/
def Quote.escape (quote : Quote) (c : Char) : List Char :=
  if c == '\\' || c == quote.char then ['\\', c] else [c]

/-- A text as the body of a string literal. -/
def escaped (quote : Quote) (text : List Char) : List Char :=
  text.flatMap quote.escape

theorem decodes_escaped (quote : Quote) (text : List Char) :
    Decodes (escaped quote text) text := by
  induction text with
  | nil => exact .nil
  | cons c text ih =>
    rw [escaped, List.flatMap_cons, Quote.escape]
    split
    next hescape =>
      refine .escape ?_ ih
      rcases Bool.or_eq_true_iff.mp hescape with hc | hc
      · rw [beq_iff_eq.mp hc]
        rfl
      · rw [beq_iff_eq.mp hc]
        cases quote with
        | double => rfl
        | single => rfl
    next hplain =>
      refine .plain ?_ ih
      rintro rfl
      exact hplain rfl

theorem escaped_mem (quote : Quote) (text : List Char) :
    escaped quote text ∈ (Rule.unit quote.char)∗ := by
  refine ⟨text.map quote.escape, List.flatMap_def, fun w hw => ?_⟩
  obtain ⟨c, _, rfl⟩ := List.mem_map.mp hw
  rw [Quote.escape]
  split
  next => exact .inr (Rule.mem_char_mul.mpr ⟨[c], ⟨c, rfl, rfl⟩, rfl⟩)
  next hplain =>
    refine .inl ⟨c, ?_, rfl⟩
    simp only [Bool.or_eq_true, beq_iff_eq, not_or] at hplain
    simp [hplain]

theorem literal_mem (quote : Quote) (text : List Char) :
    quote.char :: (escaped quote text ++ [quote.char]) ∈ Rule.string.language := by
  have hliteral : quote.char :: (escaped quote text ++ [quote.char]) ∈ Rule.literal quote.char :=
    Rule.mem_char_mul.mpr ⟨_, Language.append_mem_mul (escaped_mem quote text)
      (Rule.mem_char.mpr rfl), rfl⟩
  cases quote with
  | double => exact .inl hliteral
  | single => exact .inr hliteral

/-! ## Items -/

/-- The texts that a token of a kind can have.  A string literal can stand for any text; every other
text is itself the lexeme. -/
def Kind.Allows : Kind → String → Prop
  | .keyword, text => text ∈ keywords
  | .identifier, text => text.toList ∈ Rule.name.language ∧ text ∉ keywords
  | .integer, text => text.toList ∈ Rule.integer.language
  | .float, text => text.toList ∈ Rule.float.language
  | .string, _ => True
  | .operator, text => text.toList ∈ Rule.operator.language
  | .punctuation, text => text.toList ∈ Rule.punctuation.language
  | .endOfInput, _ => False

/-- A kind and a text of a token before the end of input. -/
structure Item where
  kind : Kind
  text : String
  allows : kind.Allows text

/-- The kind and the text of an item. -/
def Item.label (x : Item) : Kind × String :=
  (x.kind, x.text)

/-- The kind and the text of a token. -/
def Token.label (t : Token) : Kind × String :=
  (t.kind, t.text)

/-- The lexeme of an item. -/
def Item.written (x : Item) (quote : Quote) : List Char :=
  if x.kind = .string then quote.char :: (escaped quote x.text.toList ++ [quote.char])
  else x.text.toList

theorem keyword_mem {text : String} (h : text ∈ keywords) :
    text.toList ∈ Rule.name.language := by
  have hall : keywords.all (fun word => word.toList.head?.any Rule.startsName &&
      word.toList.tail.all Rule.inName) = true := by decide +kernel
  have hword := List.all_eq_true.mp hall text h
  cases hcs : text.toList with
  | nil => simp [hcs] at hword
  | cons c cs =>
    simp only [hcs, List.head?_cons, Option.any_some, List.tail_cons, Bool.and_eq_true,
      List.all_eq_true] at hword
    exact Rule.mem_one_mul.mpr ⟨c, cs, hword.1, Rule.mem_star_one.mpr hword.2, rfl⟩

/-- What is written for an item is a lexeme that spells it. -/
theorem Item.spells (x : Item) (quote : Quote) :
    ∃ rule : Rule, x.written quote ∈ rule.language ∧
      Lexeme.Spells ⟨rule, x.written quote⟩ x.kind x.text := by
  obtain ⟨kind, text, hallows⟩ := x
  obtain ⟨w, rfl⟩ : ∃ w, text = String.ofList w := ⟨text.toList, String.ofList_toList.symm⟩
  have hw : (String.ofList w).toList = w := String.toList_ofList
  have hplain : kind ≠ .string → written ⟨kind, .ofList w, hallows⟩ quote = w :=
    fun h => (if_neg h).trans hw
  cases kind with
  | keyword =>
    have hmem := keyword_mem hallows
    rw [hplain (by decide)]
    exact ⟨.name, by rwa [hw] at hmem, .keyword hallows⟩
  | identifier =>
    rw [hplain (by decide)]
    exact ⟨.name, by rw [Kind.Allows, hw] at hallows; exact hallows.1, .identifier hallows.2⟩
  | integer =>
    rw [hplain (by decide)]
    exact ⟨.integer, by rwa [Kind.Allows, hw] at hallows, .integer⟩
  | float =>
    rw [hplain (by decide)]
    exact ⟨.float, by rwa [Kind.Allows, hw] at hallows, .float⟩
  | string =>
    rw [written, if_pos rfl, hw]
    exact ⟨.string, literal_mem quote w, .string (decodes_escaped quote w)⟩
  | operator =>
    rw [hplain (by decide)]
    exact ⟨.operator, by rwa [Kind.Allows, hw] at hallows, .operator⟩
  | punctuation =>
    rw [hplain (by decide)]
    exact ⟨.punctuation, by rwa [Kind.Allows, hw] at hallows, .punctuation⟩
  | endOfInput => exact hallows.elim

/-- A token has a text that its kind allows. -/
theorem Lexeme.Spells.allows {l : Lexeme} {kind : Kind} {text : String} (h : l.Spells kind text)
    (hmem : l.text ∈ l.rule.language) : kind.Allows text := by
  cases h with
  | keyword hw => exact hw
  | identifier hw => exact ⟨by rwa [String.toList_ofList], hw⟩
  | string => trivial
  | integer | float | operator | punctuation => simpa only [Kind.Allows, String.toList_ofList]

theorem Lexeme.Spells.isLayout {l : Lexeme} {kind : Kind} {text : String}
    (h : l.Spells kind text) : l.rule.isLayout = false := by
  cases h <;> rfl

/-- How an item is written: the quotes of a string literal, and what separates the item from the
next one. -/
structure Style where
  quote : Quote
  separator : List Char
  separates : separator ∈ separators

/-- The text of a row of items. -/
def rendered : List (Item × Style) → List Char
  | [] => []
  | [(x, style)] => x.written style.quote
  | (x, style) :: y :: rest => x.written style.quote ++ style.separator ++ rendered (y :: rest)

example :
    rendered [(⟨.string, "it's", trivial⟩, ⟨.single, [' '], blank_mem_separators rfl⟩),
      (⟨.punctuation, ";", ⟨';', rfl, rfl⟩⟩, ⟨.double, ['\n'], blank_mem_separators rfl⟩)] =
        "'it\\'s' ;".toList :=
  rfl

/-- An item in front of a blank, or at the end, is read as its token. -/
theorem Item.ofPieces_written (x : Item) (quote : Quote) (rest : List Char)
    (hrest : ∀ b ds, rest = b :: ds → isBlank b = true) (source : List Char) (mark : Mark) :
    Token.ofPieces source (pieces mark (x.written quote ++ rest)) =
      (Token.ofPieces source (pieces (mark.after (x.written quote)) rest)).map
        (⟨x.kind, x.text, mark.place⟩ :: ·) := by
  obtain ⟨rule, hmem, hspells⟩ := x.spells quote
  have hmunched : rule.Munched (x.written quote) rest :=
    Rule.munched_of_mem hmem hspells.isLayout (hspells.sound.isFailure hmem) hrest
  rw [pieces_of_sound (l := ⟨rule, x.written quote⟩) hmunched hspells.sound,
    ofPieces_some (hspells.token? _ _)]

theorem ofPieces_rendered (xs : List (Item × Style)) (source : List Char) (mark : Mark) :
    ∃ tokens, Token.ofPieces source (pieces mark (rendered xs)) = .ok tokens ∧
      tokens.map Token.label = xs.map fun x => x.1.label := by
  fun_induction rendered xs generalizing mark with
  | case1 =>
    rw [pieces]
    exact ⟨[], rfl, rfl⟩
  | case2 x style =>
    have hread := x.ofPieces_written style.quote [] (by simp) source mark
    rw [List.append_nil, pieces] at hread
    exact ⟨_, hread, rfl⟩
  | case3 x style y rest ih =>
    obtain ⟨tokens, hok, hlabels⟩ := ih ((mark.after (x.written style.quote)).after style.separator)
    obtain ⟨b, v, hb, _, hsep⟩ := Rule.mem_one_mul.mp style.separates
    have hblank : ∀ b' ds, style.separator ++ rendered (y :: rest) = b' :: ds →
        isBlank b' = true := by
      intro b' ds heq
      rw [hsep, List.cons_append] at heq
      rw [← (List.cons.inj heq).1]
      exact hb
    refine ⟨⟨x.kind, x.text, mark.place⟩ :: tokens, ?_, congrArg (x.label :: ·) hlabels⟩
    rw [List.append_assoc, x.ofPieces_written style.quote _ hblank,
      skipped_of_mem_separators style.separates, hok]
    rfl

namespace Token

/-- A rendered row is read back. -/
theorem map_label_of_rendered (xs : List (Item × Style)) :
    ∃ tokens, ofSource (String.ofList (rendered xs)) = .ok tokens ∧
      tokens.map label = (xs.map fun x => x.1.label) ++ [(.endOfInput, "")] := by
  obtain ⟨tokens, hok, hlabels⟩ := ofPieces_rendered xs (rendered xs) .start
  refine ⟨tokens ++ [endAt (Place.after {} (rendered xs))], ?_, ?_⟩
  · refine ofSource_eq_ok_iff.mpr ⟨tokens, ?_, ?_⟩
    · rwa [String.toList_ofList]
    · rw [String.toList_ofList]
  · rw [List.map_append, hlabels]
    rfl

/-- The tokens of a source text are those of a row of items. -/
theorem exists_items {source : String} {tokens : List Token} (h : ofSource source = .ok tokens) :
    ∃ items : List Item, tokens.map label = items.map Item.label ++ [(.endOfInput, "")] := by
  obtain ⟨ls, hcut⟩ := exists_cut source.toList
  rcases ofSource_cut hcut with ⟨body, heq, _, hmarks⟩ | ⟨_, _, _, _, _, _, _, heq⟩
  · rw [heq] at h
    have hallows : ∀ t ∈ body, t.kind.Allows t.text := by
      intro t ht
      obtain ⟨o, ho, hspells, _⟩ := exists_marks_of_mem hmarks ht
      exact hspells.allows (hcut.mem_language (mem_of_mem_visible ho).1)
    refine ⟨body.pmap (fun t ht => ⟨t.kind, t.text, ht⟩) hallows, ?_⟩
    rw [← Except.ok.inj h, List.map_append, List.map_pmap]
    congr 1
    exact (List.pmap_eq_map hallows).symm
  · rw [heq] at h
    cases h

/-- Reading undoes writing.  A row of items, written with any quotes and any separators, is read as
the kinds and texts of the items with the end of input behind them.  The tokens of any source text
are the kinds and texts of such a row, so writing them again and reading the result gives the same
kinds and texts. -/
theorem ofSource_rendered :
    (∀ xs : List (Item × Style), ∃ tokens, ofSource (String.ofList (rendered xs)) = .ok tokens ∧
      tokens.map label = (xs.map fun x => x.1.label) ++ [(.endOfInput, "")]) ∧
    ∀ source tokens, ofSource source = .ok tokens →
      ∃ items : List Item, tokens.map label = items.map Item.label ++ [(.endOfInput, "")] ∧
        ∀ styles : List Style, styles.length = items.length →
          ∃ tokens', ofSource (String.ofList (rendered (items.zip styles))) = .ok tokens' ∧
            tokens'.map label = tokens.map label := by
  refine ⟨map_label_of_rendered, fun source tokens h => ?_⟩
  obtain ⟨items, hlabels⟩ := exists_items h
  refine ⟨items, hlabels, fun styles hlength => ?_⟩
  obtain ⟨tokens', hok, hlabels'⟩ := map_label_of_rendered (items.zip styles)
  refine ⟨tokens', hok, ?_⟩
  have hitems : (items.zip styles).map (fun x => x.1.label) = items.map Item.label :=
    calc
      _ = ((items.zip styles).map Prod.fst).map Item.label := List.map_map.symm
      _ = items.map Item.label := by rw [List.map_fst_zip hlength.ge]
  rw [hlabels', hitems, hlabels]

end Token

end TokenWalk
