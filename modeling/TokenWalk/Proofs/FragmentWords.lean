import TokenWalk.Proofs.WordEnds

/-!
# The words of a fragment's last line

The tests of a fragment's last line look at characters, the program that is run looks at tokens.
Without string literals and comments, and with `\n` as the only line end, the two can be compared:

* `trailingElse_iff` reads the test for a final `else` off the last token;
* `blockHeader_iff` reads the test for a block header off the first token of the last line that is
  not blank.

They agree but for two kinds of words (`words_agree_iff`).  A dollar is part of a name and yet ends
a word for the tests, so that `$else` and `if$` pass for keywords.  And the digits of a number are
word characters, though a keyword may follow them at once, so that the tests miss it in `1else`.

For the proofs, the lexemes of a text are taken apart around its last line (`LastRow`), just as its
characters are.
-/

namespace TokenWalk

open Text

/-! ## Lexemes outside string literals and comments -/

namespace Lexeme

/-- A lexeme that is part of a program, but no string literal and no comment. -/
structure Bare (l : Lexeme) : Prop where
  mem : l.text ∈ l.rule.language
  isFailure : l.rule.isFailure = false
  isEnclosing : l.rule.isEnclosing = false

variable {l : Lexeme} {c : Char} {kind : Kind} {text : String}

theorem Bare.text_ne_nil (h : l.Bare) : l.text ≠ [] := fun hnil =>
  Rule.nil_notMem_language l.rule (hnil ▸ h.mem)

/-- Behind any text, the last character is that of the lexeme. -/
theorem Bare.getLast?_append (h : l.Bare) (before : List Char) :
    (before ++ l.text).getLast? = l.text.getLast? := by
  rw [List.getLast?_append, List.getLast?_eq_some_getLast h.text_ne_nil]
  rfl

theorem Bare.text_of_newline (h : l.Bare) (hrule : l.rule = .newline) : l.text = ['\n'] := by
  have hmem := h.mem
  rw [hrule] at hmem
  exact Rule.mem_char.mp hmem

theorem Bare.isSpace_of_isLayout (h : l.Bare) (hlayout : l.rule.isLayout = true)
    (hrule : l.rule ≠ .newline) (hc : c ∈ l.text) : Rule.isSpace c = true := by
  obtain ⟨rule, w⟩ := l
  cases rule with
  | newline => exact absurd rfl hrule
  | blank =>
    obtain ⟨d, v, hd, hv, rfl⟩ := Rule.mem_one_mul.mp h.mem
    rcases List.mem_cons.mp hc with rfl | hc
    · exact hd
    · exact Rule.mem_star_one.mp hv c hc
  | lineComment | blockComment => cases h.isEnclosing
  | openComment | string | openString | float | integer | name | operator | punctuation
  | unmatched => cases hlayout

theorem Bare.isBlank_of_isLayout (h : l.Bare) (hlayout : l.rule.isLayout = true)
    (hc : c ∈ l.text) : isBlank c = true := by
  by_cases hrule : l.rule = .newline
  · rw [h.text_of_newline hrule, List.mem_singleton] at hc
    rw [hc]
    decide
  · exact (Bool.and_eq_true_iff.mp (h.isSpace_of_isLayout hlayout hrule hc)).1

theorem Bare.not_isBlank (h : l.Bare) (hlayout : l.rule.isLayout = false) (hc : c ∈ l.text) :
    isBlank c = false := by
  simpa using Rule.within_of_not_isLayout hlayout h.isFailure h.isEnclosing l.text h.mem c hc

theorem Bare.newline_notMem (h : l.Bare) (hrule : l.rule ≠ .newline) : '\n' ∉ l.text := by
  intro hc
  cases hlayout : l.rule.isLayout with
  | true => exact absurd (h.isSpace_of_isLayout hlayout hrule hc) (by decide)
  | false => exact absurd (h.not_isBlank hlayout hc) (by decide)

theorem Bare.toList_text (h : l.Bare) (hspells : l.Spells kind text) : text.toList = l.text := by
  cases hspells with
  | string _ => cases h.isEnclosing
  | keyword _ | identifier _ | integer | float | operator | punctuation =>
    exact String.toList_ofList

/-- A token is a given keyword if its lexeme is the name with that text. -/
theorem Spells.is_keyword_iff {t : Token} {word : String} (h : l.Spells t.kind t.text)
    (hword : word ∈ keywords) :
    t.is .keyword (some word) = true ↔ l.rule = .name ∧ l.text = word.toList := by
  simp only [Token.is, Bool.and_eq_true, beq_iff_eq, Option.all_some]
  generalize t.kind = kind at h
  generalize t.text = text at h
  cases h with
  | keyword _ =>
    constructor
    · rintro ⟨-, rfl⟩
      exact ⟨rfl, String.toList_ofList.symm⟩
    · rintro ⟨-, rfl⟩
      exact ⟨rfl, String.ofList_toList⟩
  | identifier hw =>
    constructor
    · rintro ⟨hkind, -⟩
      cases hkind
    · rintro ⟨-, rfl⟩
      rw [String.ofList_toList] at hw
      exact absurd hword hw
  | integer | float | operator | punctuation | string _ => simp

end Lexeme

section Rows

variable {ls : List Lexeme}

theorem isBlank_of_mem_flatMap (hbare : ∀ l ∈ ls, l.Bare)
    (hlayout : ∀ l ∈ ls, l.rule.isLayout = true) :
    ∀ c ∈ ls.flatMap Lexeme.text, isBlank c = true := by
  intro c hc
  obtain ⟨l, hl, hc⟩ := List.mem_flatMap.mp hc
  exact (hbare l hl).isBlank_of_isLayout (hlayout l hl) hc

theorem newline_notMem_flatMap (hbare : ∀ l ∈ ls, l.Bare) (hrule : ∀ l ∈ ls, l.rule ≠ .newline) :
    '\n' ∉ ls.flatMap Lexeme.text := by
  intro hc
  obtain ⟨l, hl, hc⟩ := List.mem_flatMap.mp hc
  exact (hbare l hl).newline_notMem (hrule l hl) hc

theorem visible_append (before : List Char) (ls ks : List Lexeme) :
    visible before (ls ++ ks) =
      visible before ls ++ visible (before ++ ls.flatMap Lexeme.text) ks := by
  induction ls generalizing before with
  | nil => simp [visible, occurrences]
  | cons l ls ih =>
    rw [List.cons_append, List.flatMap_cons, ← List.append_assoc]
    cases hlayout : l.rule.isLayout with
    | true => rw [visible_layout hlayout, visible_layout hlayout, ih]
    | false => rw [visible_cons hlayout, visible_cons hlayout, ih, List.cons_append]

theorem visible_of_isLayout (hlayout : ∀ l ∈ ls, l.rule.isLayout = true) (before : List Char) :
    visible before ls = [] := by
  induction ls generalizing before with
  | nil => rfl
  | cons l ls ih =>
    rw [List.forall_mem_cons] at hlayout
    rw [visible_layout hlayout.1, ih hlayout.2]

/-- The last of the elements with a property, if there is one. -/
theorem exists_last {α : Type} (p : α → Bool) (xs : List α) :
    (∀ x ∈ xs, p x = false) ∨
      ∃ init x tail, xs = init ++ x :: tail ∧ p x = true ∧ ∀ y ∈ tail, p y = false := by
  induction xs with
  | nil => exact .inl nofun
  | cons x xs ih =>
    rcases ih with hnone | ⟨init, y, tail, rfl, hy, htail⟩
    · cases hx : p x with
      | false => exact .inl (List.forall_mem_cons.mpr ⟨hx, hnone⟩)
      | true => exact .inr ⟨[], x, xs, rfl, hx, hnone⟩
    · exact .inr ⟨x :: init, y, tail, rfl, hy, htail⟩

/-- A row of lexemes around its last line with a token: whole lines, the blanks that line begins
with, the line from its first to its last token, and layout behind it. -/
structure LastRow (front gap mid back : List Lexeme) : Prop where
  front_ended : front = [] ∨ ∃ ks k, front = ks ++ [k] ∧ k.rule = .newline
  gap_layout : ∀ l ∈ gap, l.rule.isLayout = true
  gap_line : ∀ l ∈ gap, l.rule ≠ .newline
  mid_line : ∀ l ∈ mid, l.rule ≠ .newline
  mid_head : ∃ l ks, mid = l :: ks ∧ l.rule.isLayout = false
  mid_last : ∃ ks l, mid = ks ++ [l] ∧ l.rule.isLayout = false
  back_layout : ∀ l ∈ back, l.rule.isLayout = true

/-- Every row with a token has a last line with one. -/
theorem exists_lastRow (ls : List Lexeme) :
    (∀ l ∈ ls, l.rule.isLayout = true) ∨
      ∃ front gap mid back, ls = front ++ (gap ++ mid ++ back) ∧ LastRow front gap mid back := by
  rcases exists_last (fun l => !l.rule.isLayout) ls with hnone | ⟨init, l, back, rfl, hl, hback⟩
  · exact .inl fun l hl => by simpa using hnone l hl
  · have hl : l.rule.isLayout = false := by simpa using hl
    have hback : ∀ k ∈ back, k.rule.isLayout = true := fun k hk => by simpa using hback k hk
    obtain ⟨front, body, rfl, hfront, hbody⟩ : ∃ front body, init = front ++ body ∧
        (front = [] ∨ ∃ ks k, front = ks ++ [k] ∧ k.rule = .newline) ∧
        ∀ k ∈ body, k.rule ≠ .newline := by
      rcases exists_last (fun k => k.rule == .newline) init with hnone |
        ⟨ks, k, body, rfl, hk, hbody⟩
      · exact ⟨[], init, rfl, .inl rfl, fun k hk => by simpa using hnone k hk⟩
      · refine ⟨ks ++ [k], body, by simp, .inr ⟨ks, k, rfl, by simpa using hk⟩, ?_⟩
        exact fun j hj => by simpa using hbody j hj
    -- The blanks at the start of the line end at the latest before `l`.
    have hsplit : body.takeWhile (·.rule.isLayout) ++ body.dropWhile (·.rule.isLayout) = body :=
      List.takeWhile_append_dropWhile
    refine .inr ⟨front, body.takeWhile fun k => k.rule.isLayout,
      (body.dropWhile fun k => k.rule.isLayout) ++ [l], back, ?_, ?_⟩
    · rw [← List.append_assoc (body.takeWhile _), hsplit]
      simp
    · constructor
      case front_ended => exact hfront
      case gap_layout =>
        exact fun k hk => List.mem_takeWhile_imp (p := fun k : Lexeme => k.rule.isLayout) hk
      case gap_line => exact fun k hk => hbody k ((List.takeWhile_prefix _).subset hk)
      case mid_line =>
        intro k hk
        rcases List.mem_append.mp hk with hk | hk
        · exact hbody k ((List.dropWhile_suffix _).subset hk)
        · rw [List.mem_singleton.mp hk]
          intro hrule
          rw [hrule] at hl
          cases hl
      case mid_head =>
        cases hdrop : body.dropWhile fun k => k.rule.isLayout with
        | nil => exact ⟨l, [], rfl, hl⟩
        | cons k ks =>
          have hne : (body.dropWhile fun k => k.rule.isLayout) ≠ [] := by simp [hdrop]
          have hk := List.head_dropWhile_not (fun k : Lexeme => k.rule.isLayout) hne
          exact ⟨k, ks ++ [l], rfl, by simpa [hdrop] using hk⟩
      case mid_last => exact ⟨_, l, rfl, hl⟩
      case back_layout => exact hback

variable {front gap mid back : List Lexeme}

/-- The characters of the lexemes, around the last line that is not blank. -/
theorem LastRow.lastLineAt (h : LastRow front gap mid back)
    (hbare : ∀ l ∈ front ++ (gap ++ mid ++ back), l.Bare)
    (hplain : PlainLines ((front ++ (gap ++ mid ++ back)).flatMap Lexeme.text)) :
    Fragment.LastLineAt (front.flatMap Lexeme.text) (gap.flatMap Lexeme.text)
      (mid.flatMap Lexeme.text) (back.flatMap Lexeme.text) := by
  have hgap : ∀ l ∈ gap, l.Bare := fun l hl => hbare l (by simp [hl])
  have hmid : ∀ l ∈ mid, l.Bare := fun l hl => hbare l (by simp [hl])
  have hback : ∀ l ∈ back, l.Bare := fun l hl => hbare l (by simp [hl])
  obtain ⟨k, ks, hhead, hk⟩ := h.mid_head
  obtain ⟨js, j, hlast, hj⟩ := h.mid_last
  have hkbare := hmid k (by simp [hhead])
  have hjbare := hmid j (by simp [hlast])
  constructor
  case plain => simpa only [List.flatMap_append] using hplain
  case front_ended =>
    rcases h.front_ended with rfl | ⟨ls, l, rfl, hl⟩
    · exact .inl rfl
    · have hnewline := (hbare l (by simp)).text_of_newline hl
      exact .inr ⟨ls.flatMap Lexeme.text, by simp [hnewline]⟩
  case gap_blank => exact isBlank_of_mem_flatMap hgap h.gap_layout
  case gap_line => exact newline_notMem_flatMap hgap h.gap_line
  case core_line => exact newline_notMem_flatMap hmid h.mid_line
  case core_head =>
    obtain ⟨c, w, hw⟩ := List.exists_cons_of_ne_nil hkbare.text_ne_nil
    rw [hhead, List.flatMap_cons, hw]
    exact hkbare.not_isBlank hk (by simp [hw])
  case core_last =>
    rw [hlast, List.flatMap_append, List.flatMap_singleton, hjbare.getLast?_append,
      List.getLast?_eq_some_getLast hjbare.text_ne_nil]
    exact hjbare.not_isBlank hj (List.getLast_mem hjbare.text_ne_nil)
  case core_ne => simp [hhead, hkbare.text_ne_nil]
  case back_blank => exact isBlank_of_mem_flatMap hback h.back_layout

end Rows

/-! ## Places and tokens -/

/-- The place behind a text tells how much of a longer text it is. -/
theorem eq_nil_of_placeAt_append {u v : List Char} (h : placeAt (u ++ v) = placeAt u) : v = [] := by
  simp only [placeAt, Place.mk.injEq, List.count_append, List.reverse_append] at h
  have hline : '\n' ∉ v := List.count_eq_zero.mp (by omega)
  have hcolumn := h.2
  rw [List.takeWhile_append_of_pos (by simpa using fun c hc => ne_of_mem_of_not_mem hc hline),
    List.length_append, List.length_reverse] at hcolumn
  exact List.length_eq_zero_iff.mp (by omega)

theorem eq_of_placeAt_eq {u v cs : List Char} (hu : u <+: cs) (hv : v <+: cs)
    (h : placeAt u = placeAt v) : u = v := by
  rcases List.prefix_or_prefix_of_prefix hu hv with ⟨w, rfl⟩ | ⟨w, rfl⟩
  · rw [eq_nil_of_placeAt_append h.symm, List.append_nil]
  · rw [eq_nil_of_placeAt_append h, List.append_nil]

/-- The token of one lexeme among those of its row. -/
theorem exists_marks_append {os os' : List (List Char × Lexeme)} {o : List Char × Lexeme}
    {body : List Token} (h : List.Forall₂ Marks (os ++ o :: os') body) :
    ∃ us t vs, body = us ++ t :: vs ∧ List.Forall₂ Marks os us ∧ Marks o t ∧
      List.Forall₂ Marks os' vs := by
  induction os generalizing body with
  | nil =>
    cases h with
    | cons hmarks hrest => exact ⟨[], _, _, rfl, .nil, hmarks, hrest⟩
  | cons o' os ih =>
    cases h with
    | cons hmarks hrest =>
      obtain ⟨us, t, vs, rfl, hus, ht, hvs⟩ := ih hrest
      exact ⟨_ :: us, t, vs, rfl, .cons hmarks hus, ht, hvs⟩

theorem exists_token {ks back : List Lexeme} {l : Lexeme} {body : List Token}
    (h : List.Forall₂ Marks (visible [] (ks ++ l :: back)) body) (hl : l.rule.isLayout = false) :
    ∃ us t vs, body = us ++ t :: vs ∧ List.Forall₂ Marks (visible [] ks) us ∧
      Marks (ks.flatMap Lexeme.text, l) t ∧
      List.Forall₂ Marks (visible (ks.flatMap Lexeme.text ++ l.text) back) vs := by
  rw [visible_append, visible_cons hl, List.nil_append] at h
  exact exists_marks_append h

namespace Token

/-- The last token before the end of input. -/
def last? (tokens : List Token) : Option Token :=
  (tokens.filter (·.kind != .endOfInput)).getLast?

/-- The first token on a line. -/
def firstOn? (line : Nat) (tokens : List Token) : Option Token :=
  tokens.find? (·.place.line == line)

/-- A token begins where another one ends. -/
def Touches (s t : Token) : Prop :=
  t.place = s.place.after s.text.toList

instance (s t : Token) : Decidable (s.Touches t) :=
  inferInstanceAs (Decidable (_ = _))

/-- A token begins where one that ends in a digit ends. -/
def Numbered (tokens : List Token) (t : Token) : Prop :=
  ∃ s ∈ tokens, s.Touches t ∧ s.text.toList.getLast?.any isDigit = true

instance (tokens : List Token) (t : Token) : Decidable (Numbered tokens t) :=
  inferInstanceAs (Decidable (∃ s ∈ tokens, _ ∧ _))

/-- One of the keywords that a block follows. -/
def isHeader (t : Token) : Bool :=
  Fragment.headers.any fun word => t.is .keyword (some word)

/-- A name that goes on with a dollar behind one of the keywords that a block follows. -/
def DollarHeader (t : Token) : Prop :=
  ∃ word ∈ Fragment.headers, word.toList ++ ['$'] <+: t.text.toList

instance (t : Token) : Decidable t.DollarHeader :=
  inferInstanceAs (Decidable (∃ word ∈ Fragment.headers, _))

/-- A name that ends with a dollar and `else`. -/
def DollarElse (t : Token) : Prop :=
  '$' :: "else".toList <:+ t.text.toList

instance (t : Token) : Decidable t.DollarElse :=
  inferInstanceAs (Decidable (_ <:+ _))

variable {ls ks back : List Lexeme} {l : Lexeme} {body tokens : List Token} {t : Token}
variable {cs : List Char} {source : String} {stop : Place}

theorem last?_eq (h : ∀ t ∈ body, t.kind ≠ .endOfInput) :
    last? (body ++ [endAt stop]) = body.getLast? := by
  have hbody : body.filter (·.kind != .endOfInput) = body :=
    List.filter_eq_self.mpr fun t ht => bne_iff_ne.mpr (h t ht)
  rw [last?, List.filter_append, hbody, List.filter_cons_of_neg (by simp [endAt]), List.filter_nil,
    List.append_nil]

/-- A token stands behind a number if the text before it ends in a digit. -/
theorem numbered_iff (hbare : ∀ k ∈ ks ++ l :: back, k.Bare)
    (hmarks : List.Forall₂ Marks (visible [] (ks ++ l :: back)) body)
    (hplace : t.place = Place.after {} (ks.flatMap Lexeme.text)) :
    Numbered (body ++ [endAt stop]) t ↔ (ks.flatMap Lexeme.text).getLast?.any isDigit = true := by
  constructor
  · rintro ⟨s, hs, htouches, hdigit⟩
    rcases List.mem_append.mp hs with hs | hs
    · obtain ⟨o, ho, hspells, hstart⟩ := exists_marks_of_mem hmarks hs
      obtain ⟨hmem, rest, hrest⟩ := mem_of_mem_visible ho
      rw [(hbare o.2 hmem).toList_text hspells] at hdigit
      have hsame : placeAt (o.1 ++ o.2.text) = placeAt (ks.flatMap Lexeme.text) := by
        rw [← after_eq_placeAt, ← after_eq_placeAt, Place.after_append, ← hstart, ← hplace,
          htouches, (hbare o.2 hmem).toList_text hspells]
      rw [List.nil_append] at hrest
      have heq := eq_of_placeAt_eq ⟨rest, hrest.symm⟩ ⟨_, List.flatMap_append.symm⟩ hsame
      rw [← heq, (hbare o.2 hmem).getLast?_append]
      exact hdigit
    · rw [List.mem_singleton.mp hs] at hdigit
      cases hdigit
  · intro hdigit
    rcases List.eq_nil_or_concat ks with rfl | ⟨js, k, rfl⟩
    · cases hdigit
    · rw [List.concat_eq_append] at hmarks hplace hdigit hbare
      have hk := hbare k (by simp)
      rw [List.flatMap_append, List.flatMap_singleton, hk.getLast?_append] at hdigit
      have hlayout : k.rule.isLayout = false := by
        refine Bool.eq_false_iff.mpr fun hlayout => ?_
        have hblank := hk.isBlank_of_isLayout hlayout (List.getLast_mem hk.text_ne_nil)
        rw [List.getLast?_eq_some_getLast hk.text_ne_nil, Option.any_some,
          isDigit_of_isBlank hblank] at hdigit
        cases hdigit
      rw [List.append_assoc] at hmarks
      obtain ⟨us, s, vs, rfl, _, ⟨hspells, hstart⟩, _⟩ := exists_token hmarks hlayout
      refine ⟨s, by simp, ?_, ?_⟩
      · rw [Touches, hk.toList_text hspells, hstart, ← Place.after_append, hplace]
        simp
      · rw [hk.toList_text hspells]
        exact hdigit

/-- The lexemes and tokens of a text without string literals and comments. -/
theorem exists_bare (htokens : ofSource source = .ok tokens)
    (hbare : ∀ piece ∈ pieces .start source.toList, piece.rule.isEnclosing = false) :
    ∃ ls body stop, Cut source.toList ls ∧ (∀ l ∈ ls, l.Bare) ∧ (∀ t ∈ body, t.kind ≠ .endOfInput) ∧
      List.Forall₂ Marks (visible [] ls) body ∧ tokens = body ++ [endAt (placeAt stop)] := by
  obtain ⟨ls, hcut⟩ := exists_cut source.toList
  rcases ofSource_cut hcut with ⟨body, hsource, hsound, hmarks⟩ | ⟨_, _, _, _, _, _, _, hsource⟩
  · rw [htokens] at hsource
    cases hsource
    have hfailure : ∀ l ∈ ls, l.rule.isFailure = false := fun l hl =>
      (hsound l hl).isFailure (hcut.mem_language hl)
    have hpieces := (map_lexeme_pieces hcut .start).trans
      (Fragment.upToFailure_of_not_isFailure hfailure)
    refine ⟨ls, body, source.toList, hcut, fun l hl => ⟨hcut.mem_language hl, hfailure l hl, ?_⟩,
      ?_, hmarks, by rw [after_eq_placeAt]⟩
    · rw [← hpieces] at hl
      obtain ⟨piece, hpiece, rfl⟩ := List.mem_map.mp hl
      exact hbare piece hpiece
    · intro t ht
      obtain ⟨o, _, hspells, _⟩ := exists_marks_of_mem hmarks ht
      exact hspells.kind_ne_endOfInput
  · rw [htokens] at hsource
    cases hsource

end Token

namespace Fragment

open Token

variable {source : String} {tokens body : List Token} {front gap mid back : List Lexeme}
variable {stop : Place} {cs : List Char}

/-! ## A final `else` -/

/-- A text of layout only has no tokens, and no line that the tests look at. -/
theorem of_isLayout {ls : List Lexeme} (hcut : Cut cs ls) (hbare : ∀ l ∈ ls, l.Bare)
    (hmarks : List.Forall₂ Marks (visible [] ls) body)
    (hlayout : ∀ l ∈ ls, l.rule.isLayout = true) :
    body = [] ∧ lastLine? cs = none ∧ lastLineNumber cs = 0 := by
  have hblank := isBlank_of_mem_flatMap hbare hlayout
  rw [hcut.flatMap_text] at hblank
  rw [visible_of_isLayout hlayout] at hmarks
  exact ⟨List.forall₂_nil_left_iff.mp hmarks, lastLine?_of_blank hblank,
    lastLineNumber_of_blank hblank⟩

/-- Just before a name, the word characters are the digits. -/
theorem getLast_before_name {ks : List Lexeme} {l : Lexeme} (hcut : Cut cs (ks ++ l :: back))
    (hbare : ∀ k ∈ ks ++ l :: back, k.Bare) (hname : l.text ∈ Rule.name.language) :
    (ks.flatMap Lexeme.text).getLast?.any isWord =
      (ks.flatMap Lexeme.text).getLast?.any isDigit := by
  rcases List.eq_nil_or_concat ks with rfl | ⟨js, k, rfl⟩
  · rfl
  · rw [List.concat_eq_append] at hcut hbare ⊢
    rw [List.append_assoc] at hcut
    obtain ⟨c, v, hc, _, htext⟩ := Rule.mem_name.mp hname
    have hk := hbare k (by simp)
    have hmunched := hcut.munched js k (l :: back) rfl
    rw [List.flatMap_cons, htext, List.cons_append] at hmunched
    rw [List.flatMap_append, List.flatMap_singleton, hk.getLast?_append, Bool.eq_iff_iff]
    constructor
    · exact hmunched.isDigit_getLast hc hk.isFailure hk.isEnclosing
    · rw [List.getLast?_eq_some_getLast hk.text_ne_nil]
      exact isWord_of_isDigit

/-- The test for a final `else`, on the last lexeme and the text before it. -/
theorem endsWith_else_iff {ks : List Lexeme} {l : Lexeme} {t : Token}
    (hcut : Cut cs (ks ++ l :: back)) (hbare : ∀ k ∈ ks ++ l :: back, k.Bare)
    (hspells : l.Spells t.kind t.text) :
    endsWith "else".toList (ks.flatMap Lexeme.text ++ l.text) = true ↔
      (t.is .keyword (some "else") = true ∧
          (ks.flatMap Lexeme.text).getLast?.any isDigit = false) ∨ t.DollarElse := by
  have hl := hbare l (by simp)
  have hletters : ∀ c ∈ "else".toList, isWordStart c = true := List.all_eq_true.mp (by decide)
  rw [hspells.is_keyword_iff (by decide), DollarElse, hl.toList_text hspells]
  by_cases hname : l.rule = .name
  · have hmem := hl.mem
    rw [hname] at hmem
    have hbefore := getLast_before_name hcut hbare hmem
    rw [endsWith_iff_of_name hletters hmem fun h => hbefore ▸ h, hbefore]
    simp only [hname, true_and]
  · obtain ⟨u, c, htext, hc⟩ :=
      Rule.endsIn_of_ne_name hname hl.isFailure hl.isEnclosing l.text hl.mem
    have hc : isWordStart c = false := by simpa using hc
    rw [htext, ← List.append_assoc, endsWith_of_not_isWordStart hletters (by decide) hc]
    simp only [Bool.false_eq_true, hname, false_and, false_or, false_iff]
    rintro ⟨m, hm⟩
    have hlast : 'e' = c := by simpa using congrArg List.getLast? hm
    rw [← hlast] at hc
    exact absurd hc (by decide)

/-- No word goes on before the last line that is not blank. -/
theorem LastLineAt.getLast_before {front gap core back : List Char}
    (h : LastLineAt front gap core back) : (front ++ gap).getLast?.any isWord = false := by
  rcases List.eq_nil_or_concat gap with rfl | ⟨gap, c, rfl⟩
  · rw [List.append_nil]
    rcases h.front_ended with rfl | ⟨cs, rfl⟩
    · rfl
    · rw [List.getLast?_concat]
      decide
  · rw [List.concat_eq_append, ← List.append_assoc, List.getLast?_concat]
    exact isWord_of_isBlank (h.gap_blank c (by simp))

theorem lastLine?_of_lastRow (hcut : Cut cs (front ++ (gap ++ mid ++ back)))
    (hline : LastLineAt (front.flatMap Lexeme.text) (gap.flatMap Lexeme.text)
      (mid.flatMap Lexeme.text) (back.flatMap Lexeme.text)) :
    lastLine? cs = some (mid.flatMap Lexeme.text) ∧
      lastLineNumber cs = 1 + (front.flatMap Lexeme.text).count '\n' := by
  rw [← hcut.flatMap_text, List.flatMap_append, List.flatMap_append, List.flatMap_append]
  exact ⟨hline.lastLine?_eq, hline.lastLineNumber_eq⟩

/-- The test for a final `else`, read off the tokens: the last one is the keyword, with no number
that ends where it begins, or it is a name that ends with a dollar and `else`. -/
theorem trailingElse_iff (htokens : ofSource source = .ok tokens)
    (hlines : PlainLines source.toList)
    (hbare : ∀ piece ∈ pieces .start source.toList, piece.rule.isEnclosing = false) :
    (lastLine? source.toList).any trailingElse = true ↔
      ∃ t ∈ last? tokens,
        (t.is .keyword (some "else") = true ∧ ¬ Numbered tokens t) ∨ t.DollarElse := by
  obtain ⟨ls, body, stop, hcut, hbare, hkinds, hmarks, rfl⟩ := exists_bare htokens hbare
  rw [last?_eq hkinds]
  rcases exists_lastRow ls with hlayout | ⟨front, gap, mid, back, rfl, hrow⟩
  · obtain ⟨rfl, hnone, _⟩ := of_isLayout hcut hbare hmarks hlayout
    simp [hnone]
  · have hline := hrow.lastLineAt hbare (hcut.flatMap_text ▸ hlines)
    have hlast := (lastLine?_of_lastRow hcut hline).1
    obtain ⟨js, l, rfl, hl⟩ := hrow.mid_last
    have hsplit : front ++ (gap ++ (js ++ [l]) ++ back) = (front ++ gap ++ js) ++ l :: back := by
      simp
    rw [hsplit] at hcut hbare hmarks
    obtain ⟨us, t, vs, rfl, _, ⟨hspells, hplace⟩, hvs⟩ := exists_token hmarks hl
    rw [visible_of_isLayout hrow.back_layout] at hvs
    obtain rfl := List.forall₂_nil_left_iff.mp hvs
    -- The text before the line ends in no word character, so the test may as well see all of it.
    have htest : trailingElse ((js ++ [l]).flatMap Lexeme.text) =
        endsWith "else".toList ((front ++ gap ++ js).flatMap Lexeme.text ++ l.text) := by
      have hletters : ∀ c ∈ "else".toList, isWord c = true := List.all_eq_true.mp (by decide)
      rw [trailingElse, ← endsWith_append hletters hline.getLast_before]
      simp
    have hnumbered : Numbered (us ++ [t] ++ [endAt (placeAt stop)]) t ↔
        ((front ++ gap ++ js).flatMap Lexeme.text).getLast?.any isDigit = true :=
      numbered_iff hbare hmarks hplace
    rw [hlast, Option.any_some, htest, endsWith_else_iff hcut hbare hspells, List.getLast?_concat,
      ← Bool.not_eq_true, ← hnumbered]
    simp

/-! ## A block header -/

/-- The test for a word at the start of a line, on its first lexeme. -/
theorem beginsWith_iff_of_spells {ks : List Lexeme} {l : Lexeme} {t : Token} {word : String}
    (hcut : Cut cs (ks ++ l :: (mid ++ back))) (hl : l.Bare) (hspells : l.Spells t.kind t.text)
    (hword : word ∈ headers) :
    beginsWith word.toList (l.text ++ mid.flatMap Lexeme.text) = true ↔
      t.is .keyword (some word) = true ∨ word.toList ++ ['$'] <+: t.text.toList := by
  have hheaders : ∀ word ∈ headers, word ∈ keywords ∧
      word.toList.head?.any Rule.startsName = true ∧ word.toList.all Rule.inName = true := by
    decide
  obtain ⟨hkeyword, hhead, hletters⟩ := hheaders word hword
  rw [List.all_eq_true] at hletters
  have hmunched := hcut.munched ks l (mid ++ back) rfl
  rw [hspells.is_keyword_iff hkeyword, hl.toList_text hspells]
  by_cases hname : l.rule = .name
  · rw [hname] at hmunched
    have hrest : (mid.flatMap Lexeme.text).head?.any Rule.inName = false := by
      have hrest := hmunched.head_rest
      rw [List.flatMap_append] at hrest
      cases hmid : mid.flatMap Lexeme.text with
      | nil => rfl
      | cons c cs =>
        rw [hmid] at hrest
        exact hrest
    rw [beginsWith_iff_of_name hletters hmunched.mem hrest]
    simp only [hname, true_and]
  · -- A lexeme that begins like the word would be a name.
    obtain ⟨c, w, hw⟩ := List.exists_cons_of_ne_nil hl.text_ne_nil
    obtain ⟨d, v, hv⟩ : ∃ d v, word.toList = d :: v := by
      cases hlist : word.toList with
      | nil => simp [hlist] at hhead
      | cons d v => exact ⟨d, v, rfl⟩
    have hstart : Rule.startsName d = true := by simpa [hv] using hhead
    have hne : c ≠ d := by
      rintro rfl
      rw [hw] at hmunched
      exact hname (hmunched.eq_name hstart hl.isFailure)
    simp only [hname, false_and, false_or]
    rw [hw, hv]
    constructor
    · intro h
      obtain ⟨back, heq, _⟩ := beginsWith_iff.mp h
      exact absurd (List.cons.inj heq).1 hne
    · intro h
      exact absurd (List.cons_prefix_cons.mp h).1.symm hne

/-- The tokens of whole lines stand on earlier lines than what follows. -/
theorem line_lt_of_front (hrow : LastRow front gap mid back) (hbare : ∀ k ∈ front, k.Bare)
    {us : List Token} (hmarks : List.Forall₂ Marks (visible [] front) us) {s : Token}
    (hs : s ∈ us) :
    s.place.line < 1 + (front.flatMap Lexeme.text).count '\n' := by
  obtain ⟨o, ho, _, hplace⟩ := exists_marks_of_mem hmarks hs
  rcases hrow.front_ended with rfl | ⟨ks, k, rfl, hk⟩
  · cases ho
  · have hlayout : ∀ j ∈ [k], j.rule.isLayout = true := by
      intro j hj
      rw [List.mem_singleton.mp hj, hk]
      rfl
    rw [visible_append, visible_of_isLayout hlayout, List.append_nil] at ho
    obtain ⟨_, rest, hrest⟩ := mem_of_mem_visible ho
    have hcount := congrArg (List.count '\n') hrest
    simp only [List.nil_append, List.count_append] at hcount
    rw [hplace, after_eq_placeAt, placeAt, List.flatMap_append, List.flatMap_singleton,
      (hbare k (by simp)).text_of_newline hk, List.count_append, List.count_singleton_self]
    dsimp only
    omega

theorem firstOn?_eq (hrow : LastRow front gap mid back) (hbare : ∀ k ∈ front ++ gap, k.Bare)
    {us vs : List Token} {t : Token}
    (hmarks : List.Forall₂ Marks (visible [] (front ++ gap)) us)
    (hplace : t.place = Place.after {} ((front ++ gap).flatMap Lexeme.text)) :
    firstOn? (1 + (front.flatMap Lexeme.text).count '\n') (us ++ t :: vs) = some t := by
  have hgap : '\n' ∉ gap.flatMap Lexeme.text :=
    newline_notMem_flatMap (fun k hk => hbare k (List.mem_append_right front hk)) hrow.gap_line
  have hline : t.place.line = 1 + (front.flatMap Lexeme.text).count '\n' := by
    rw [hplace, after_eq_placeAt, placeAt, List.flatMap_append, List.count_append,
      List.count_eq_zero.mpr hgap, Nat.add_zero]
  rw [visible_append, visible_of_isLayout hrow.gap_layout, List.append_nil] at hmarks
  have hnone : us.find? (·.place.line == 1 + (front.flatMap Lexeme.text).count '\n') = none := by
    refine List.find?_eq_none.mpr fun s hs => ?_
    have hlt := line_lt_of_front hrow (fun k hk => hbare k (List.mem_append_left gap hk)) hmarks hs
    rw [beq_iff_eq]
    omega
  rw [firstOn?, List.find?_append, hnone, Option.none_or,
    List.find?_cons_of_pos (by rw [hline, beq_self_eq_true])]

/-- The test for a block header, read off the tokens: the first one on the last line that is not
blank is such a keyword, or it is a name that goes on with a dollar behind one. -/
theorem blockHeader_iff (htokens : ofSource source = .ok tokens) (hlines : PlainLines source.toList)
    (hbare : ∀ piece ∈ pieces .start source.toList, piece.rule.isEnclosing = false) :
    (lastLine? source.toList).any blockHeader = true ↔
      ∃ t ∈ firstOn? (lastLineNumber source.toList) tokens,
        t.isHeader = true ∨ t.DollarHeader := by
  obtain ⟨ls, body, stop, hcut, hbare, hkinds, hmarks, rfl⟩ := exists_bare htokens hbare
  rcases exists_lastRow ls with hlayout | ⟨front, gap, mid, back, rfl, hrow⟩
  · obtain ⟨rfl, hnone, hnumber⟩ := of_isLayout hcut hbare hmarks hlayout
    have hline := (placeAt_pos stop).1
    simp [hnone, hnumber, firstOn?, endAt, Nat.ne_of_gt hline]
  · have hline := hrow.lastLineAt hbare (hcut.flatMap_text ▸ hlines)
    obtain ⟨hlast, hnumber⟩ := lastLine?_of_lastRow hcut hline
    obtain ⟨l, ks, rfl, hl⟩ := hrow.mid_head
    have hsplit : front ++ (gap ++ (l :: ks) ++ back) = (front ++ gap) ++ l :: (ks ++ back) := by
      simp
    rw [hsplit] at hcut hbare hmarks
    obtain ⟨us, t, vs, rfl, hus, ⟨hspells, hplace⟩, _⟩ := exists_token hmarks hl
    have hfirst : firstOn? (lastLineNumber source.toList)
        (us ++ t :: vs ++ [endAt (placeAt stop)]) = some t := by
      rw [hnumber, List.append_assoc, List.cons_append]
      exact firstOn?_eq hrow (fun k hk => hbare k (List.mem_append_left _ hk)) hus hplace
    have hwords : ∀ word ∈ headers,
        (beginsWith word.toList ((l :: ks).flatMap Lexeme.text) = true ↔
          t.is .keyword (some word) = true ∨ word.toList ++ ['$'] <+: t.text.toList) := by
      intro word hword
      rw [List.flatMap_cons]
      exact beginsWith_iff_of_spells hcut (hbare l (by simp)) hspells hword
    rw [hlast, hfirst, Option.any_some]
    calc blockHeader ((l :: ks).flatMap Lexeme.text) = true
        ↔ ∃ word ∈ headers, beginsWith word.toList ((l :: ks).flatMap Lexeme.text) = true :=
          List.any_eq_true
      _ ↔ ∃ word ∈ headers,
            t.is .keyword (some word) = true ∨ word.toList ++ ['$'] <+: t.text.toList :=
          exists_congr fun word => and_congr_right (hwords word)
      _ ↔ t.isHeader = true ∨ t.DollarHeader := by
          simp only [and_or_left, exists_or, isHeader, DollarHeader, List.any_eq_true]
      _ ↔ _ := by simp

/-! ## Agreement -/

theorem not_is_else_of_dollarElse {t : Token} (h : t.DollarElse) :
    ¬ t.is .keyword (some "else") = true := by
  intro helse
  simp only [Token.is, Option.all_some, Bool.and_eq_true, beq_iff_eq] at helse
  rw [DollarElse, helse.2] at h
  exact absurd h (by decide)

theorem not_isHeader_of_dollarHeader {t : Token} (h : t.DollarHeader) : ¬ t.isHeader = true := by
  have hnone : ∀ text ∈ headers, ¬ ∃ word ∈ headers, word.toList ++ ['$'] <+: text.toList := by
    decide
  intro hheader
  obtain ⟨text, hmem, hkeyword⟩ := List.any_eq_true.mp hheader
  simp only [Token.is, Option.all_some, Bool.and_eq_true, beq_iff_eq] at hkeyword
  rw [DollarHeader, hkeyword.2] at h
  exact hnone text hmem h

/-- **The tests of a fragment and its tokens agree on words, but for dollars and numbers.**  In a
text with tokens, without string literals and comments and with no line ends but `\n`:

* the test for a final `else` holds exactly if the last token is that keyword, unless that token is
  a name that ends with a dollar and `else`, or the keyword right behind a number;
* the test for a block header holds exactly if the first token on the last line that is not blank
  is `if`, `while` or `else`, unless that token is a name that goes on with a dollar behind one of
  these. -/
theorem words_agree_iff (htokens : ofSource source = .ok tokens) (hlines : PlainLines source.toList)
    (hbare : ∀ piece ∈ pieces .start source.toList, piece.rule.isEnclosing = false) :
    (((lastLine? source.toList).any trailingElse = true ↔
        ∃ t ∈ last? tokens, t.is .keyword (some "else") = true) ↔
      ∀ t ∈ last? tokens,
        ¬ t.DollarElse ∧ ¬ (t.is .keyword (some "else") = true ∧ Numbered tokens t)) ∧
    (((lastLine? source.toList).any blockHeader = true ↔
        ∃ t ∈ firstOn? (lastLineNumber source.toList) tokens, t.isHeader = true) ↔
      ∀ t ∈ firstOn? (lastLineNumber source.toList) tokens, ¬ t.DollarHeader) := by
  rw [trailingElse_iff htokens hlines hbare, blockHeader_iff htokens hlines hbare]
  constructor
  · cases last? tokens with
    | none => simp
    | some t =>
      have hexclusive := not_is_else_of_dollarElse (t := t)
      simp only [Option.mem_some_iff, exists_eq_left', forall_eq']
      tauto
  · cases firstOn? (lastLineNumber source.toList) tokens with
    | none => simp
    | some t =>
      have hexclusive := not_isHeader_of_dollarHeader (t := t)
      simp only [Option.mem_some_iff, exists_eq_left', forall_eq']
      tauto

/-- An `else` on a line of its own, with a number on the line before. -/
def dangling : String :=
  "a = 9\n  else \n\n"

/-- The tokens of `dangling`. -/
def danglingTokens : List Token :=
  [⟨.identifier, "a", ⟨1, 1⟩⟩, ⟨.operator, "=", ⟨1, 3⟩⟩, ⟨.integer, "9", ⟨1, 5⟩⟩,
    ⟨.keyword, "else", ⟨2, 3⟩⟩, endAt ⟨4, 1⟩]

theorem dangling_words_agree :
    ofSource dangling = .ok danglingTokens ∧ PlainLines dangling.toList ∧
      (∀ piece ∈ pieces .start dangling.toList, piece.rule.isEnclosing = false) ∧
      ((lastLine? dangling.toList).any trailingElse = true ↔
        ∃ t ∈ last? danglingTokens, t.is .keyword (some "else") = true) ∧
      ((lastLine? dangling.toList).any blockHeader = true ↔
        ∃ t ∈ firstOn? (lastLineNumber dangling.toList) danglingTokens, t.isHeader = true) := by
  have htokens : ofSource dangling = .ok danglingTokens := by decide +kernel
  have hlines : PlainLines dangling.toList := by decide +kernel
  have hbare : ∀ piece ∈ pieces .start dangling.toList, piece.rule.isEnclosing = false := by
    decide +kernel
  obtain ⟨htrailing, hheader⟩ := words_agree_iff htokens hlines hbare
  refine ⟨htokens, hlines, hbare, htrailing.mpr ?_, hheader.mpr ?_⟩
  · decide +kernel
  · decide +kernel

/-- The name `$else` passes for the keyword `else`, and the name `if$` for the keyword `if`. -/
theorem words_disagree :
    (∃ tokens, ofSource "x = $else" = .ok tokens ∧ PlainLines "x = $else".toList ∧
      (∀ piece ∈ pieces .start "x = $else".toList, piece.rule.isEnclosing = false) ∧
      (lastLine? "x = $else".toList).any trailingElse = true ∧
      ¬ ∃ t ∈ last? tokens, t.is .keyword (some "else") = true) ∧
    ∃ tokens, ofSource "if$ = 1" = .ok tokens ∧ PlainLines "if$ = 1".toList ∧
      (∀ piece ∈ pieces .start "if$ = 1".toList, piece.rule.isEnclosing = false) ∧
      (lastLine? "if$ = 1".toList).any blockHeader = true ∧
      ¬ ∃ t ∈ firstOn? (lastLineNumber "if$ = 1".toList) tokens, t.isHeader = true := by
  constructor
  · refine ⟨[⟨.identifier, "x", ⟨1, 1⟩⟩, ⟨.operator, "=", ⟨1, 3⟩⟩, ⟨.identifier, "$else", ⟨1, 5⟩⟩,
      endAt ⟨1, 10⟩], ?_⟩
    decide +kernel
  · refine ⟨[⟨.identifier, "if$", ⟨1, 1⟩⟩, ⟨.operator, "=", ⟨1, 5⟩⟩, ⟨.integer, "1", ⟨1, 7⟩⟩,
      endAt ⟨1, 8⟩], ?_⟩
    decide +kernel

end Fragment

end TokenWalk
