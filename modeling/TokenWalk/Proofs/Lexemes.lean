import Mathlib.Data.List.Forall2
import TokenWalk.Proofs.Marks

/-!
# The lexemes of a text

A text has exactly one cut into lexemes by maximal munch, and its tokens and faults can be read off
that cut, lexeme by lexeme.

* `Decodes` gives the text that the body of a string literal stands for, and `unescape_of_decodes`
  and `unescape_of_unknown` decide how decoding ends;
* `Lexeme.Spells` is the token of a lexeme and `Lexeme.Faulty` what can be wrong with one;
  `spells_or_faulty` shows that every lexeme outside the layout has one of the two;
* `Cut` is the cut as a whole, with `exists_cut` and `Cut.unique`;
* `ofPieces_cut` follows the cut up to its first faulty lexeme.
-/

namespace TokenWalk

open Text
open scoped Computability

/-! ## Escapes -/

/-- The text that the body of a string literal stands for. -/
inductive Decodes : List Char → List Char → Prop where
  | nil : Decodes [] []
  | plain {c cs ds} : c ≠ '\\' → Decodes cs ds → Decodes (c :: cs) (c :: ds)
  | escape {c e cs ds} : escape? c = some e → Decodes cs ds → Decodes ('\\' :: c :: cs) (e :: ds)

theorem unescape_plain {c : Char} (h : c ≠ '\\') (cs : List Char) :
    unescape (c :: cs) = (unescape cs).map (c :: ·) := by
  rw [unescape]
  rintro d ds rfl
  exact absurd rfl h

theorem unescape_of_decodes {body text : List Char} (h : Decodes body text) :
    unescape body = .ok text := by
  induction h with
  | nil => rfl
  | plain hc _ ih =>
    rw [unescape_plain hc, ih]
    rfl
  | escape he _ ih =>
    rw [unescape, he, ih]
    rfl

/-- Decoding stops at the first unknown escape. -/
theorem unescape_of_unknown {front text rest : List Char} {c : Char} (h : Decodes front text)
    (hc : escape? c = none) : unescape (front ++ '\\' :: c :: rest) = .error c := by
  induction h with
  | nil => rw [List.nil_append, unescape, hc]
  | plain hd _ ih =>
    rw [List.cons_append, unescape_plain hd, ih]
    rfl
  | escape he _ ih =>
    rw [List.cons_append, List.cons_append, unescape, he, ih]
    rfl

/-- The body of a string literal is decoded, or has a first unknown escape. -/
theorem decodes_or_unknown {quote : Char} {body : List Char} (h : body ∈ (Rule.unit quote)∗) :
    (∃ text, Decodes body text) ∨
      ∃ front text c rest, body = front ++ '\\' :: c :: rest ∧ Decodes front text ∧
        escape? c = none := by
  obtain ⟨units, rfl, hunits⟩ := h
  induction units with
  | nil => exact .inl ⟨[], .nil⟩
  | cons u units ih =>
    have ih := ih fun v hv => hunits v (List.mem_cons_of_mem u hv)
    rw [List.flatten_cons]
    rcases hunits u List.mem_cons_self with ⟨c, hc, rfl⟩ | hescape
    · have hplain : c ≠ '\\' := by
        simp only [Bool.and_eq_true, bne_iff_ne] at hc
        exact hc.2
      rcases ih with ⟨text, htext⟩ | ⟨front, text, d, rest, heq, hfront, hd⟩
      · exact .inl ⟨c :: text, .plain hplain htext⟩
      · refine .inr ⟨c :: front, c :: text, d, rest, ?_, .plain hplain hfront, hd⟩
        rw [heq]
        rfl
    · obtain ⟨v, ⟨c, _, rfl⟩, rfl⟩ := Rule.mem_char_mul.mp hescape
      cases hc : escape? c with
      | none => exact .inr ⟨[], [], c, units.flatten, rfl, .nil, hc⟩
      | some e =>
        rcases ih with ⟨text, htext⟩ | ⟨front, text, d, rest, heq, hfront, hd⟩
        · exact .inl ⟨e :: text, .escape hc htext⟩
        · refine .inr ⟨'\\' :: c :: front, e :: text, d, rest, ?_, .escape hc hfront, hd⟩
          rw [heq]
          rfl

/-! ## Lexemes -/

/-- A piece of a text without its place. -/
structure Lexeme where
  rule : Rule
  text : List Char
  deriving DecidableEq, Repr

/-- The lexeme of a piece. -/
def Piece.lexeme (p : Piece) : Lexeme :=
  ⟨p.rule, p.text⟩

/-- The rules of blanks and comments. -/
def Rule.isLayout : Rule → Bool
  | .newline => true
  | .blank => true
  | .lineComment => true
  | .blockComment => true
  | _ => false

namespace Lexeme

/-- The kind and the text of a lexeme's token.  A name is a keyword if the whole of it is one; a
string literal stands for its decoded body. -/
inductive Spells : Lexeme → Kind → String → Prop where
  | keyword {w} : String.ofList w ∈ keywords → Spells ⟨.name, w⟩ .keyword (.ofList w)
  | identifier {w} : String.ofList w ∉ keywords → Spells ⟨.name, w⟩ .identifier (.ofList w)
  | integer {w} : Spells ⟨.integer, w⟩ .integer (.ofList w)
  | float {w} : Spells ⟨.float, w⟩ .float (.ofList w)
  | operator {w} : Spells ⟨.operator, w⟩ .operator (.ofList w)
  | punctuation {w} : Spells ⟨.punctuation, w⟩ .punctuation (.ofList w)
  | string {quote body text} : Decodes body text →
      Spells ⟨.string, quote :: (body ++ [quote])⟩ .string (.ofList text)

/-- What is wrong with a lexeme: it opens a comment or a string literal that never ends, no rule
knows its character, or it is a string literal whose first unknown escape is that of `c`. -/
inductive Faulty : Lexeme → Cause → Prop where
  | openComment {w} : Faulty ⟨.openComment, w⟩ .unterminatedComment
  | openString {w} : Faulty ⟨.openString, w⟩ .unterminatedString
  | unmatched {c} : Faulty ⟨.unmatched, [c]⟩ (.unexpectedCharacter c)
  | escape {quote front text c rest} : Decodes front text → escape? c = none →
      Faulty ⟨.string, quote :: (front ++ '\\' :: c :: rest ++ [quote])⟩ (.unknownEscape c)

/-- Nothing is wrong with a lexeme. -/
def Sound (l : Lexeme) : Prop :=
  ∀ cause, ¬ l.Faulty cause

/-- The place of a lexeme's fault: its own, but a comment that never ends is found at the end of the
text. -/
def faultPlace (l : Lexeme) (textEnd place : Place) : Place :=
  if l.rule = .openComment then textEnd else place

variable {l : Lexeme} {kind : Kind} {text : String} {cause : Cause}

theorem Spells.token? (h : l.Spells kind text) (source : List Char) (mark : Mark) :
    Piece.token? source ⟨l.rule, l.text, mark⟩ = .ok (some ⟨kind, text, mark.place⟩) := by
  cases h with
  | keyword hw => simp [Piece.token?, Piece.plain, Piece.place, hw]
  | identifier hw => simp [Piece.token?, Piece.plain, Piece.place, hw]
  | integer => rfl
  | float => rfl
  | operator => rfl
  | punctuation => rfl
  | string hbody => simp [Piece.token?, Piece.place, unescape_of_decodes hbody]

theorem Faulty.token? (h : l.Faulty cause) (source : List Char) (mark : Mark) :
    Piece.token? source ⟨l.rule, l.text, mark⟩ =
      .error (.ofPlace (l.faultPlace (mark.endOf source) mark.place) cause) := by
  cases h with
  | openComment => rfl
  | openString => rfl
  | unmatched => rfl
  | escape hfront hc =>
    simp only [Piece.token?, List.tail_cons, List.dropLast_concat, unescape_of_unknown hfront hc]
    rfl

theorem Spells.sound (h : l.Spells kind text) : l.Sound := by
  intro cause hfaulty
  have hok := h.token? [] .start
  rw [hfaulty.token? [] .start] at hok
  cases hok

theorem sound_of_isLayout (h : l.rule.isLayout = true) : l.Sound := by
  rintro cause (_ | _ | _ | _)
  all_goals cases h

theorem token?_of_isLayout (h : l.rule.isLayout = true) (source : List Char) (mark : Mark) :
    Piece.token? source ⟨l.rule, l.text, mark⟩ = .ok none := by
  obtain ⟨rule, w⟩ := l
  cases rule <;> first | rfl | cases h

/-- A word of a rule outside the layout gives a token or a fault. -/
theorem spells_or_faulty (h : l.text ∈ l.rule.language) (hlayout : l.rule.isLayout = false) :
    (∃ kind text, l.Spells kind text) ∨ ∃ cause, l.Faulty cause := by
  obtain ⟨rule, w⟩ := l
  have hliteral : ∀ quote, w ∈ Rule.literal quote →
      (∃ kind text, Spells ⟨.string, w⟩ kind text) ∨ ∃ cause, Faulty ⟨.string, w⟩ cause := by
    intro quote hw
    obtain ⟨v, hv, rfl⟩ := Rule.mem_char_mul.mp hw
    obtain ⟨body, hbody, u, hu, rfl⟩ := Language.mem_mul.mp hv
    rw [Rule.mem_char.mp hu]
    rcases decodes_or_unknown hbody with ⟨text, htext⟩ | ⟨front, text, c, rest, rfl, hfront, hc⟩
    · exact .inl ⟨.string, .ofList text, .string htext⟩
    · exact .inr ⟨.unknownEscape c, .escape hfront hc⟩
  cases rule with
  | newline | blank | lineComment | blockComment => cases hlayout
  | openComment => exact .inr ⟨_, .openComment⟩
  | string => exact h.elim (hliteral '"') (hliteral '\'')
  | openString => exact .inr ⟨_, .openString⟩
  | float => exact .inl ⟨_, _, .float⟩
  | integer => exact .inl ⟨_, _, .integer⟩
  | name =>
    by_cases hkeyword : String.ofList w ∈ keywords
    · exact .inl ⟨_, _, .keyword hkeyword⟩
    · exact .inl ⟨_, _, .identifier hkeyword⟩
  | operator => exact .inl ⟨_, _, .operator⟩
  | punctuation => exact .inl ⟨_, _, .punctuation⟩
  | unmatched =>
    obtain ⟨c, _, rfl⟩ := h
    exact .inr ⟨_, .unmatched⟩

theorem Sound.isFailure (h : l.Sound) (hmem : l.text ∈ l.rule.language) :
    l.rule.isFailure = false := by
  obtain ⟨rule, w⟩ := l
  cases rule with
  | openComment => exact absurd .openComment (h _)
  | openString => exact absurd .openString (h _)
  | unmatched =>
    obtain ⟨c, _, rfl⟩ := hmem
    exact absurd .unmatched (h _)
  | _ => rfl

end Lexeme

/-! ## Cuts -/

/-- A row of lexemes that are, one after the other, the whole text, each the piece that maximal
munch cuts off in front of the later ones. -/
structure Cut (cs : List Char) (ls : List Lexeme) : Prop where
  flatMap_text : ls.flatMap Lexeme.text = cs
  munched : ∀ front l back, ls = front ++ l :: back →
    l.rule.Munched l.text (back.flatMap Lexeme.text)

theorem cut_cons_iff {cs : List Char} {l : Lexeme} {ls : List Lexeme} :
    Cut cs (l :: ls) ↔
      ∃ rest, cs = l.text ++ rest ∧ l.rule.Munched l.text rest ∧ Cut rest ls := by
  constructor
  · rintro ⟨rfl, hmunched⟩
    refine ⟨ls.flatMap Lexeme.text, List.flatMap_cons, hmunched [] l ls rfl, rfl, ?_⟩
    rintro front k back rfl
    exact hmunched (l :: front) k back rfl
  · rintro ⟨rest, rfl, hl, rfl, hmunched⟩
    refine ⟨List.flatMap_cons, ?_⟩
    intro front k back heq
    cases front with
    | nil =>
      cases heq
      exact hl
    | cons _ front => exact hmunched front k back (List.cons.inj heq).2

theorem cut_nil_iff {cs : List Char} : Cut cs [] ↔ cs = [] := by
  constructor
  · rintro ⟨rfl, _⟩
    rfl
  · rintro rfl
    exact ⟨rfl, fun front l back heq => absurd heq (by simp)⟩

theorem Cut.mem_language {cs : List Char} {ls : List Lexeme} {l : Lexeme} (h : Cut cs ls)
    (hl : l ∈ ls) : l.text ∈ l.rule.language := by
  obtain ⟨front, back, hls⟩ := List.append_of_mem hl
  exact (h.munched front l back hls).mem

theorem exists_cut (cs : List Char) : ∃ ls, Cut cs ls := by
  induction hlength : cs.length using Nat.strong_induction_on generalizing cs with
  | _ k ih =>
    cases cs with
    | nil => exact ⟨[], cut_nil_iff.mpr rfl⟩
    | cons c cs =>
      rcases hfirst : Rule.first c cs with ⟨rule, n⟩
      have hshorter : (cs.drop n).length < k := by
        rw [← hlength, List.length_cons, List.length_drop]
        omega
      obtain ⟨ls, hls⟩ := ih _ hshorter (cs.drop n) rfl
      refine ⟨⟨rule, c :: cs.take n⟩ :: ls, cut_cons_iff.mpr ⟨cs.drop n, ?_, ?_, hls⟩⟩
      · rw [List.cons_append, List.take_append_drop]
      · exact Rule.munched_of_first hfirst

theorem Cut.eq_nil {ls : List Lexeme} (h : Cut [] ls) : ls = [] := by
  cases ls with
  | nil => rfl
  | cons l ls =>
    obtain ⟨rest, heq, hl, _⟩ := cut_cons_iff.mp h
    have hmem := hl.mem
    rw [(List.append_eq_nil_iff.mp heq.symm).1] at hmem
    exact absurd hmem (Rule.nil_notMem_language l.rule)

/-- A text has one cut only. -/
theorem Cut.unique {cs : List Char} {ls ls' : List Lexeme} (h : Cut cs ls) (h' : Cut cs ls') :
    ls = ls' := by
  induction ls generalizing cs ls' with
  | nil =>
    rw [cut_nil_iff.mp h] at h'
    exact h'.eq_nil.symm
  | cons l ls ih =>
    cases ls' with
    | nil =>
      rw [cut_nil_iff.mp h'] at h
      exact h.eq_nil
    | cons l' ls' =>
      obtain ⟨rest, rfl, hl, hls⟩ := cut_cons_iff.mp h
      obtain ⟨rest', heq, hl', hls'⟩ := cut_cons_iff.mp h'
      obtain ⟨hrule, htext, rfl⟩ := hl.unique hl' heq
      have hhead : l = l' := by
        obtain ⟨rule, text⟩ := l
        cases hrule
        cases htext
        rfl
      rw [hhead, ih hls hls']

/-! ## Reading a cut -/

theorem pieces_of_first {c : Char} {cs : List Char} {rule : Rule} {n : Nat}
    (h : Rule.first c cs = (rule, n)) (mark : Mark) :
    pieces mark (c :: cs) = ⟨rule, c :: cs.take n, mark⟩ ::
      if rule.isFailure then [] else pieces (mark.after (c :: cs.take n)) (cs.drop n) := by
  rw [← Mark.past_eq_after (Rule.munched_of_first h).mem, pieces, h]
  dsimp only
  split
  · rfl
  · rfl

theorem pieces_of_munched {rule : Rule} {text rest : List Char} (h : rule.Munched text rest)
    (mark : Mark) :
    pieces mark (text ++ rest) =
      ⟨rule, text, mark⟩ :: if rule.isFailure then [] else pieces (mark.after text) rest := by
  cases text with
  | nil => exact absurd h.mem (Rule.nil_notMem_language rule)
  | cons c text =>
    rw [List.cons_append, pieces_of_first (Rule.first_of_munched h), List.take_left, List.drop_left]

theorem pieces_of_sound {l : Lexeme} {rest : List Char} (h : l.rule.Munched l.text rest)
    (hsound : l.Sound) (mark : Mark) :
    pieces mark (l.text ++ rest) =
      ⟨l.rule, l.text, mark⟩ :: pieces (mark.after l.text) rest := by
  rw [pieces_of_munched h, hsound.isFailure h.mem]
  rfl

section OfPieces

variable {source : List Char} {p : Piece} {ps : List Piece}

theorem ofPieces_none (h : p.token? source = .ok none) :
    Token.ofPieces source (p :: ps) = Token.ofPieces source ps := by
  rw [Token.ofPieces, h]
  rfl

theorem ofPieces_some {t : Token} (h : p.token? source = .ok (some t)) :
    Token.ofPieces source (p :: ps) = (Token.ofPieces source ps).map (t :: ·) := by
  rw [Token.ofPieces, h]
  rfl

theorem ofPieces_ok {t? : Option Token} (h : p.token? source = .ok t?) :
    Token.ofPieces source (p :: ps) = (Token.ofPieces source ps).map (t?.toList ++ ·) := by
  cases t? with
  | some t => exact ofPieces_some h
  | none =>
    rw [ofPieces_none h]
    cases Token.ofPieces source ps with
    | ok tokens => rfl
    | error fault => rfl

theorem ofPieces_error {fault : Fault} (h : p.token? source = .error fault) :
    Token.ofPieces source (p :: ps) = .error fault := by
  rw [Token.ofPieces, h]
  rfl

theorem ofPieces_cons_eq_ok_iff {tokens : List Token} :
    Token.ofPieces source (p :: ps) = .ok tokens ↔
      ∃ t? more, p.token? source = .ok t? ∧ Token.ofPieces source ps = .ok more ∧
        tokens = t?.toList ++ more := by
  cases htoken : p.token? source with
  | error fault => simp [ofPieces_error htoken]
  | ok t? =>
    rw [ofPieces_ok htoken]
    cases Token.ofPieces source ps with
    | error fault => simp [Except.map]
    | ok more => simp [Except.map, eq_comm]

end OfPieces

/-- The lexemes of a row, each with the text before it. -/
def occurrences (before : List Char) : List Lexeme → List (List Char × Lexeme)
  | [] => []
  | l :: ls => (before, l) :: occurrences (before ++ l.text) ls

/-- The lexemes that are not layout. -/
def visible (before : List Char) (ls : List Lexeme) : List (List Char × Lexeme) :=
  (occurrences before ls).filter fun o => !o.2.rule.isLayout

theorem mem_of_mem_visible {before : List Char} {ls : List Lexeme} {o : List Char × Lexeme}
    (h : o ∈ visible before ls) :
    o.2 ∈ ls ∧ ∃ rest, before ++ ls.flatMap Lexeme.text = o.1 ++ o.2.text ++ rest := by
  replace h : o ∈ occurrences before ls := (List.mem_filter.mp h).1
  induction ls generalizing before with
  | nil => cases h
  | cons l ls ih =>
    rw [List.flatMap_cons, ← List.append_assoc]
    rcases List.mem_cons.mp h with rfl | htail
    · exact ⟨List.mem_cons_self, _, rfl⟩
    · obtain ⟨hmem, hrest⟩ := ih htail
      exact ⟨List.mem_cons_of_mem l hmem, hrest⟩

theorem visible_layout {l : Lexeme} (h : l.rule.isLayout = true) (before : List Char)
    (ls : List Lexeme) : visible before (l :: ls) = visible (before ++ l.text) ls := by
  simp [visible, occurrences, h]

theorem visible_cons {l : Lexeme} (h : l.rule.isLayout = false) (before : List Char)
    (ls : List Lexeme) :
    visible before (l :: ls) = (before, l) :: visible (before ++ l.text) ls := by
  simp [visible, occurrences, h]

theorem map_visible (before : List Char) (ls : List Lexeme) :
    (visible before ls).map Prod.snd = ls.filter fun l => !l.rule.isLayout := by
  induction ls generalizing before with
  | nil => rfl
  | cons l ls ih =>
    cases hlayout : l.rule.isLayout with
    | true => rw [visible_layout hlayout, ih, List.filter_cons_of_neg (by simp [hlayout])]
    | false =>
      rw [visible_cons hlayout, List.map_cons, ih, List.filter_cons_of_pos (by simp [hlayout])]

/-- A token is that of a lexeme, at the place that the text before it leads to. -/
def Marks (o : List Char × Lexeme) (t : Token) : Prop :=
  o.2.Spells t.kind t.text ∧ t.place = Place.after {} o.1

/-- Every token of a row that lexemes spell has its lexeme. -/
theorem exists_marks_of_mem {os : List (List Char × Lexeme)} {tokens : List Token} {t : Token}
    (h : List.Forall₂ Marks os tokens) (ht : t ∈ tokens) : ∃ o ∈ os, Marks o t := by
  induction h with
  | nil => cases ht
  | cons hmarks _ ih =>
    rcases List.mem_cons.mp ht with rfl | htail
    · exact ⟨_, List.mem_cons_self, hmarks⟩
    · obtain ⟨o, ho, hmarks⟩ := ih htail
      exact ⟨o, List.mem_cons_of_mem _ ho, hmarks⟩

/-- Reading a cut gives the token of each lexeme outside the layout, or the fault of the first
faulty lexeme. -/
theorem ofPieces_cut {cs : List Char} {ls : List Lexeme} (h : Cut cs ls) (before : List Char) :
    (∃ tokens, Token.ofPieces (before ++ cs) (pieces (Mark.after .start before) cs) = .ok tokens ∧
      (∀ l ∈ ls, l.Sound) ∧ List.Forall₂ Marks (visible before ls) tokens) ∨
    ∃ front l back cause, ls = front ++ l :: back ∧ (∀ k ∈ front, k.Sound) ∧ l.Faulty cause ∧
      Token.ofPieces (before ++ cs) (pieces (Mark.after .start before) cs) =
        .error (.ofPlace (l.faultPlace (Place.after {} (before ++ cs))
          (Place.after {} (before ++ front.flatMap Lexeme.text))) cause) := by
  induction ls generalizing cs before with
  | nil =>
    rw [cut_nil_iff.mp h, pieces]
    exact .inl ⟨[], rfl, by simp, .nil⟩
  | cons l ls ih =>
    obtain ⟨rest, rfl, hl, hls⟩ := cut_cons_iff.mp h
    have hplace : (Mark.after .start before).place = Place.after {} before := Mark.place_after ..
    have ih := ih hls (before ++ l.text)
    rw [Mark.after_append, List.append_assoc] at ih
    cases hlayout : l.rule.isLayout with
    | true =>
      have hsound := Lexeme.sound_of_isLayout hlayout
      rw [pieces_of_sound hl hsound, ofPieces_none (Lexeme.token?_of_isLayout hlayout _ _)]
      rcases ih with ⟨tokens, heq, hall, hmarks⟩ | ⟨front, k, back, cause, rfl, hfront, hk, heq⟩
      · refine .inl ⟨tokens, heq, List.forall_mem_cons.mpr ⟨hsound, hall⟩, ?_⟩
        rwa [visible_layout hlayout]
      · refine .inr ⟨l :: front, k, back, cause, rfl,
          List.forall_mem_cons.mpr ⟨hsound, hfront⟩, hk, ?_⟩
        rw [heq, List.flatMap_cons, List.append_assoc]
    | false =>
      rcases Lexeme.spells_or_faulty hl.mem hlayout with ⟨kind, text, hspells⟩ | ⟨cause, hfaulty⟩
      · have hsound := hspells.sound
        rw [pieces_of_sound hl hsound, ofPieces_some (hspells.token? _ _)]
        rcases ih with ⟨tokens, heq, hall, hmarks⟩ | ⟨front, k, back, cause, rfl, hfront, hk, heq⟩
        · refine .inl ⟨⟨kind, text, (Mark.after .start before).place⟩ :: tokens, ?_,
            List.forall_mem_cons.mpr ⟨hsound, hall⟩, ?_⟩
          · rw [heq]
            rfl
          · rw [visible_cons hlayout]
            exact .cons ⟨hspells, hplace⟩ hmarks
        · refine .inr ⟨l :: front, k, back, cause, rfl,
            List.forall_mem_cons.mpr ⟨hsound, hfront⟩, hk, ?_⟩
          rw [heq, List.flatMap_cons, List.append_assoc]
          rfl
      · refine .inr ⟨[], l, ls, cause, rfl, by simp, hfaulty, ?_⟩
        have hoffset : (Mark.after .start before).offset = before.length := by simp
        have hend := Mark.endOf_append hoffset (l.text ++ rest)
        rw [hplace, ← Place.after_append] at hend
        rw [pieces_of_munched hl, ofPieces_error (hfaulty.token? _ _), hend, hplace,
          List.flatMap_nil, List.append_nil]

/-- The lexemes of a row up to and including the first that makes the whole text fail. -/
def upToFailure : List Lexeme → List Lexeme
  | [] => []
  | l :: ls => l :: if l.rule.isFailure then [] else upToFailure ls

/-- The program cuts a text as far as its first failing lexeme. -/
theorem map_lexeme_pieces {cs : List Char} {ls : List Lexeme} (h : Cut cs ls) (mark : Mark) :
    (pieces mark cs).map Piece.lexeme = upToFailure ls := by
  induction ls generalizing cs mark with
  | nil =>
    rw [cut_nil_iff.mp h, pieces]
    rfl
  | cons l ls ih =>
    obtain ⟨rest, rfl, hl, hls⟩ := cut_cons_iff.mp h
    rw [pieces_of_munched hl, upToFailure, List.map_cons]
    cases l.rule.isFailure with
    | true => rfl
    | false => exact congrArg (l :: ·) (ih hls (mark.after l.text))

theorem Lexeme.Faulty.unique {l : Lexeme} {cause cause' : Cause} (h : l.Faulty cause)
    (h' : l.Faulty cause') : cause = cause' := by
  have heq := (h.token? [] .start).symm.trans (h'.token? [] .start)
  exact congrArg Fault.cause (Except.error.inj heq)

/-- A row has one first faulty lexeme. -/
theorem first_faulty_unique {front front' back back' : List Lexeme} {l l' : Lexeme}
    {cause cause' : Cause} (heq : front ++ l :: back = front' ++ l' :: back')
    (hfront : ∀ k ∈ front, k.Sound) (hfront' : ∀ k ∈ front', k.Sound) (hl : l.Faulty cause)
    (hl' : l'.Faulty cause') : front = front' ∧ l = l' := by
  induction front generalizing front' with
  | nil =>
    cases front' with
    | nil => exact ⟨rfl, (List.cons.inj heq).1⟩
    | cons k front' =>
      rw [(List.cons.inj heq).1] at hl
      exact absurd hl (hfront' k List.mem_cons_self cause)
  | cons k front ih =>
    cases front' with
    | nil =>
      rw [← (List.cons.inj heq).1] at hl'
      exact absurd hl' (hfront k List.mem_cons_self cause')
    | cons k' front' =>
      obtain ⟨rfl, htail⟩ := List.cons.inj heq
      obtain ⟨rfl, rfl⟩ := ih htail (fun k hk => hfront k (List.mem_cons_of_mem _ hk))
        (fun k hk => hfront' k (List.mem_cons_of_mem _ hk))
      exact ⟨rfl, rfl⟩

namespace Token

variable {source : String} {ls : List Lexeme}

/-- A piece whose rule fails has no token. -/
theorem isFailure_of_ok {cs : List Char} {ps : List Piece} {tokens : List Token}
    (h : ofPieces cs ps = .ok tokens) : ∀ p ∈ ps, p.rule.isFailure = false := by
  induction ps generalizing tokens with
  | nil => simp
  | cons p ps ih =>
    obtain ⟨t?, more, htoken, hps, rfl⟩ := ofPieces_cons_eq_ok_iff.mp h
    refine List.forall_mem_cons.mpr ⟨?_, ih hps⟩
    obtain ⟨rule, text, mark⟩ := p
    cases rule with
    | openComment | openString | unmatched => cases htoken
    | _ => rfl

/-- If no piece fails, cutting comes to the end of the text. -/
theorem stop_pieces {mark : Mark} {cs : List Char}
    (h : ∀ p ∈ pieces mark cs, p.rule.isFailure = false) :
    (pieces mark cs).getLast?.elim mark Piece.stop = mark.after cs := by
  fun_induction pieces mark cs with
  | case1 mark => rfl
  | case2 mark c cs rule n hfirst piece hfailure =>
    have hpiece := h piece List.mem_cons_self
    exact absurd hfailure (Bool.eq_false_iff.mp hpiece)
  | case3 mark c cs rule n hfirst piece hfailure ih =>
    have hstop : piece.stop = mark.after (c :: cs.take n) :=
      Mark.past_eq_after (Rule.munched_of_first hfirst).mem mark
    have ih := ih fun p hp => h p (List.mem_cons_of_mem _ hp)
    rw [hstop, ← Mark.after_append, List.cons_append, List.take_append_drop, ← hstop] at ih
    rw [List.getLast?_cons, ← ih]
    cases (pieces piece.stop (cs.drop n)).getLast? with
    | none => rfl
    | some p => rfl

theorem ofSource_eq (source : String) :
    ofSource source =
      (ofPieces source.toList (pieces .start source.toList)).map
        (· ++ [endAt (Place.after {} source.toList)]) := by
  rw [ofSource]
  cases hpieces : ofPieces source.toList (pieces .start source.toList) with
  | error fault => rfl
  | ok tokens =>
    have hstop := stop_pieces (isFailure_of_ok hpieces)
    have hlength : source.toList.length = (Mark.after .start source.toList).offset := by simp
    show Except.ok (tokens ++ [endAt (Mark.placeOf _ source.toList.length)]) = _
    rw [hstop, hlength]
    exact congrArg (fun place => Except.ok (tokens ++ [endAt place])) (Mark.place_after ..)

theorem ofSource_eq_ok_iff {tokens : List Token} :
    ofSource source = .ok tokens ↔
      ∃ body, ofPieces source.toList (pieces .start source.toList) = .ok body ∧
        tokens = body ++ [endAt (Place.after {} source.toList)] := by
  rw [ofSource_eq]
  cases ofPieces source.toList (pieces .start source.toList) with
  | error fault => simp [Except.map]
  | ok body => simp [Except.map, eq_comm]

theorem ofSource_eq_error_iff {fault : Fault} :
    ofSource source = .error fault ↔
      ofPieces source.toList (pieces .start source.toList) = .error fault := by
  rw [ofSource_eq]
  cases ofPieces source.toList (pieces .start source.toList) with
  | error fault => simp [Except.map]
  | ok body => simp [Except.map]

/-- The tokens of a source text, or its fault, from its cut. -/
theorem ofSource_cut (h : Cut source.toList ls) :
    (∃ tokens, ofSource source = .ok (tokens ++ [endAt (Place.after {} source.toList)]) ∧
      (∀ l ∈ ls, l.Sound) ∧ List.Forall₂ Marks (visible [] ls) tokens) ∨
    ∃ front l back cause, ls = front ++ l :: back ∧ (∀ k ∈ front, k.Sound) ∧ l.Faulty cause ∧
      ofSource source = .error (.ofPlace (l.faultPlace (Place.after {} source.toList)
        (Place.after {} (front.flatMap Lexeme.text))) cause) := by
  rcases ofPieces_cut h [] with ⟨tokens, heq, hall, hmarks⟩ |
    ⟨front, l, back, cause, hls, hfront, hl, heq⟩
  · exact .inl ⟨tokens, ofSource_eq_ok_iff.mpr ⟨tokens, heq, rfl⟩, hall, hmarks⟩
  · exact .inr ⟨front, l, back, cause, hls, hfront, hl, ofSource_eq_error_iff.mpr heq⟩

/-- The fault of a source text is a lexical one, and names no file. -/
theorem lexical_of_ofSource {fault : Fault} (h : ofSource source = .error fault) :
    fault.cause.family = .lexical ∧ fault.file = none := by
  obtain ⟨ls, hcut⟩ := exists_cut source.toList
  rcases ofSource_cut hcut with ⟨body, hsource, -⟩ | ⟨_, l, _, cause, _, _, hfaulty, hsource⟩
  · rw [h] at hsource
    cases hsource
  · rw [h] at hsource
    cases hsource
    refine ⟨?_, rfl⟩
    cases hfaulty <;> rfl

/-- A source text has exactly one cut into lexemes that loses nothing and takes, at every place, a
longest word of any rule, by the earliest rule that has it.  The program's pieces are the lexemes of
this cut up to the first failing one.  The tokens are those of the lexemes outside the layout, one
for each, with an end of input behind them.  There is a fault exactly if a lexeme is faulty, and it
is that of the first such lexeme. -/
theorem ofSource_maximalMunch (source : String) :
    ∃ ls, Cut source.toList ls ∧ (∀ ls', Cut source.toList ls' → ls' = ls) ∧
      (pieces .start source.toList).map Piece.lexeme = upToFailure ls ∧
      (∀ tokens, ofSource source = .ok tokens →
        ∃ body stop, tokens = body ++ [stop] ∧ stop.kind = .endOfInput ∧
          List.Forall₂ (fun l t => l.Spells t.kind t.text)
            (ls.filter fun l => !l.rule.isLayout) body) ∧
      ((∃ fault, ofSource source = .error fault) ↔ ∃ l ∈ ls, ∃ cause, l.Faulty cause) ∧
      ∀ front l back cause, ls = front ++ l :: back → (∀ k ∈ front, k.Sound) → l.Faulty cause →
        ofSource source = .error (.ofPlace (l.faultPlace (Place.after {} source.toList)
          (Place.after {} (front.flatMap Lexeme.text))) cause) := by
  obtain ⟨ls, hcut⟩ := exists_cut source.toList
  refine ⟨ls, hcut, fun ls' h => h.unique hcut, map_lexeme_pieces hcut .start, ?_⟩
  rcases ofSource_cut hcut with ⟨tokens, heq, hall, hmarks⟩ |
    ⟨front, l, back, cause, hls, hfront, hl, heq⟩
  · refine ⟨?_, ⟨?_, ?_⟩, ?_⟩
    · intro tokens' h
      rw [heq] at h
      refine ⟨tokens, _, (Except.ok.inj h).symm, rfl, ?_⟩
      rw [← map_visible [] ls, List.forall₂_map_left_iff]
      exact hmarks.imp fun o t h => h.1
    · rintro ⟨fault, h⟩
      rw [heq] at h
      cases h
    · rintro ⟨l, hl, cause, hfaulty⟩
      exact absurd hfaulty (hall l hl cause)
    · rintro front l back cause rfl hfront hfaulty
      exact absurd hfaulty (hall l (by simp) cause)
  · refine ⟨?_, ⟨?_, ?_⟩, ?_⟩
    · intro tokens h
      rw [heq] at h
      cases h
    · intro _
      exact ⟨l, by simp [hls], cause, hl⟩
    · intro _
      exact ⟨_, heq⟩
    · intro front' l' back' cause' hls' hfront' hl'
      obtain ⟨rfl, rfl⟩ := first_faulty_unique (hls.symm.trans hls') hfront hfront' hl hl'
      rw [← hl.unique hl', heq]

end Token

end TokenWalk
