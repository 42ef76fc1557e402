import TokenWalk.Proofs.Positions
import TokenWalk.Proofs.Seams

/-!
# Joining texts by a line end

A line end between two texts keeps their tokens apart.  No lexeme of the first text goes on behind
it, unless it looks for the end of a comment or a string literal (`pieces_append_newline`), and
cutting goes on behind it as at the start of a text, further down (`pieces_down`).
-/

namespace TokenWalk

/-! ## Further down -/

/-- The place some lines further down. -/
def Place.down (k : Nat) (p : Place) : Place :=
  ⟨p.line + k, p.column⟩

/-- The mark `n` characters and `k` lines further down. -/
def Mark.down (n k : Nat) (m : Mark) : Mark :=
  ⟨n + m.offset, m.line + k, n + m.lineStart, Nat.add_le_add_left m.lineStart_le n⟩

/-- The piece `n` characters and `k` lines further down. -/
def Piece.down (n k : Nat) (p : Piece) : Piece :=
  { p with start := p.start.down n k }

/-- The token some lines further down. -/
def Token.down (k : Nat) (t : Token) : Token :=
  { t with place := t.place.down k }

/-- The fault some lines further down, with the same cause and column. -/
def Fault.down (k : Nat) (f : Fault) : Fault :=
  { f with line := f.line.map (· + k) }

theorem Mark.next_down (n k : Nat) (m : Mark) (c : Char) :
    (m.down n k).next c = (m.next c).down n k := by
  unfold next down
  split
  · ext
    · exact Nat.add_assoc ..
    · exact Nat.add_right_comm ..
    · exact Nat.add_assoc ..
  · ext
    · exact Nat.add_assoc ..
    · rfl
    · rfl

theorem Mark.after_down (n k : Nat) (m : Mark) (cs : List Char) :
    (m.down n k).after cs = (m.after cs).down n k := by
  induction cs generalizing m with
  | nil => rfl
  | cons c cs ih =>
    refine .trans ?_ (ih (m.next c))
    rw [← next_down]
    rfl

theorem Mark.placeOf_down (n k : Nat) (m : Mark) (offset : Nat) :
    (m.down n k).placeOf (n + offset) = (m.placeOf offset).down k := by
  simp only [placeOf, down, Place.down, Nat.add_sub_add_left]

theorem Mark.endOf_down (before cs : List Char) (k : Nat) (m : Mark) :
    (m.down before.length k).endOf (before ++ cs) = (m.endOf cs).down k := by
  have hdrop : (before ++ cs).drop (m.down before.length k).offset = cs.drop m.offset :=
    List.drop_length_add_append m.offset
  rw [endOf, endOf, hdrop, List.length_append]
  by_cases hrest : (cs.drop m.offset).count '\n' = 0
  · rw [if_pos hrest, if_pos hrest, placeOf_down]
  · have hcs : cs.count '\n' ≠ 0 := fun h =>
      hrest (Nat.le_zero.mp (h ▸ (List.drop_sublist m.offset cs).count_le '\n'))
    rw [if_neg hrest, if_neg hrest, lastLineStart_append hcs, Nat.add_sub_add_left]
    simp only [down, Place.down, Nat.add_right_comm]

theorem Fault.down_ofPlace (k : Nat) (place : Place) (cause : Cause) :
    (Fault.ofPlace place cause).down k = .ofPlace (place.down k) cause := by
  simp [Fault.ofPlace, Fault.down, Place.down]

/-- Cutting does the same further down. -/
theorem pieces_down (n k : Nat) (mark : Mark) (cs : List Char) :
    pieces (mark.down n k) cs = (pieces mark cs).map (Piece.down n k) := by
  fun_induction pieces mark cs with
  | case1 mark =>
    rw [pieces]
    rfl
  | case2 mark c cs rule m hfirst piece hfailure =>
    rw [pieces_of_first hfirst, if_pos hfailure]
    rfl
  | case3 mark c cs rule m hfirst piece hfailure ih =>
    have hstop : piece.stop = mark.after piece.text :=
      Mark.past_eq_after (Rule.munched_of_first hfirst).mem mark
    rw [hstop] at ih
    rw [pieces_of_first hfirst, if_neg hfailure, List.map_cons, hstop, ← ih, Mark.after_down]
    rfl

/-- The outcome of reading, some lines further down. -/
def outcomeDown (k : Nat) {α : Type} (down : α → α) : Except Fault α → Except Fault α
  | .ok a => .ok (down a)
  | .error fault => .error (fault.down k)

theorem token?_down (before cs : List Char) (k : Nat) (p : Piece) :
    (p.down before.length k).token? (before ++ cs) =
      outcomeDown k (Option.map (Token.down k)) (p.token? cs) := by
  have hplace : (p.down before.length k).place = p.place.down k := Mark.placeOf_down ..
  have hend := Mark.endOf_down before cs k p.start
  obtain ⟨rule, text, mark⟩ := p
  cases rule with
  | newline | blank | lineComment | blockComment => rfl
  | float | integer | name | operator | punctuation =>
    simp only [Piece.token?, Piece.down, Piece.plain] at hplace ⊢
    rw [hplace]
    rfl
  | openComment =>
    refine congrArg Except.error (.trans ?_ (Fault.down_ofPlace k _ _).symm)
    exact congrArg (Fault.ofPlace · _) hend
  | openString | unmatched =>
    refine congrArg Except.error (.trans ?_ (Fault.down_ofPlace k _ _).symm)
    exact congrArg (Fault.ofPlace · _) hplace
  | string =>
    simp only [Piece.token?, Piece.down] at hplace ⊢
    rw [hplace]
    cases unescape text.tail.dropLast with
    | ok decoded => rfl
    | error c => exact congrArg Except.error (Fault.down_ofPlace k _ _).symm

theorem ofPieces_down (before cs : List Char) (k : Nat) (ps : List Piece) :
    Token.ofPieces (before ++ cs) (ps.map (Piece.down before.length k)) =
      outcomeDown k (List.map (Token.down k)) (Token.ofPieces cs ps) := by
  induction ps with
  | nil => rfl
  | cons p ps ih =>
    have hdown := token?_down before cs k p
    rw [List.map_cons]
    cases htoken : p.token? cs with
    | error fault =>
      rw [htoken] at hdown
      rw [ofPieces_error hdown, ofPieces_error htoken]
      rfl
    | ok t? =>
      rw [htoken] at hdown
      rw [ofPieces_ok hdown, ofPieces_ok htoken, ih]
      cases Token.ofPieces cs ps with
      | error fault => rfl
      | ok tokens =>
        cases t? with
        | none => rfl
        | some t => rfl

/-! ## The line end between two texts -/

/-- The rules of comments and string literals that look for their end. -/
def Rule.isOpen : Rule → Bool
  | .openComment => true
  | .openString => true
  | _ => false

theorem Rule.isOpen_of_isFailure {rule : Rule} (h : rule.isFailure = false) :
    rule.isOpen = false := by
  cases rule with
  | openComment | openString => cases h
  | _ => rfl

theorem Rule.first_append_newline {c : Char} {cs : List Char} {rule : Rule} {n : Nat}
    (h : first c cs = (rule, n)) (hopen : rule.isOpen = false) (ds : List Char) :
    first c (cs ++ '\n' :: ds) = (rule, n) := by
  refine first_append (by decide) h ?_ ?_ (fun _ => rfl) ds
  · rintro rfl
    cases hopen
  · rintro rfl
    cases hopen

/-- The first piece of a text, with more behind the text. -/
theorem pieces_append_of_first {c : Char} {cs ds : List Char} {rule : Rule} {n : Nat}
    (h : Rule.first c cs = (rule, n)) (happend : Rule.first c (cs ++ ds) = (rule, n))
    (mark : Mark) :
    pieces mark (c :: cs ++ ds) = ⟨rule, c :: cs.take n, mark⟩ ::
      if rule.isFailure then []
      else pieces (mark.after (c :: cs.take n)) (cs.drop n ++ ds) := by
  have hn := Rule.le_of_extent? (Rule.first_eq_iff.mp h).1
  rw [List.cons_append, pieces_of_first happend, List.take_append_of_le_length hn,
    List.drop_append_of_le_length hn]

/-- A line end behind a text leaves its pieces as they are, up to one that looks for its end; if no
piece fails, cutting goes on behind them. -/
theorem pieces_append_newline (mark : Mark) (cs ds : List Char) :
    ∃ rest, pieces mark (cs ++ '\n' :: ds) =
        (pieces mark cs).takeWhile (fun p => !p.rule.isOpen) ++ rest ∧
      ((∀ p ∈ pieces mark cs, p.rule.isFailure = false) →
        rest = pieces (mark.after cs) ('\n' :: ds)) := by
  fun_induction pieces mark cs with
  | case1 mark => exact ⟨_, rfl, fun _ => rfl⟩
  | case2 mark c cs rule n hfirst piece hfailure =>
    have hnot : ¬ ∀ p ∈ [piece], p.rule.isFailure = false := fun hall => by
      have hpiece := hall piece List.mem_cons_self
      exact absurd hfailure (Bool.eq_false_iff.mp hpiece)
    cases hopen : rule.isOpen with
    | true =>
      refine ⟨pieces mark (c :: cs ++ '\n' :: ds), ?_, fun hall => absurd hall hnot⟩
      rw [List.takeWhile_cons_of_neg (by simp [piece, hopen]), List.nil_append]
    | false =>
      refine ⟨[], ?_, fun hall => absurd hall hnot⟩
      have happend := Rule.first_append_newline hfirst hopen ds
      rw [pieces_append_of_first hfirst happend, if_pos hfailure,
        List.takeWhile_cons_of_pos (by simp [piece, hopen])]
      rfl
  | case3 mark c cs rule n hfirst piece hfailure ih =>
    have hopen := Rule.isOpen_of_isFailure (Bool.eq_false_iff.mpr hfailure)
    have happend := Rule.first_append_newline hfirst hopen ds
    have hstop : piece.stop = mark.after (c :: cs.take n) :=
      Mark.past_eq_after (Rule.munched_of_first hfirst).mem mark
    obtain ⟨rest, heq, hrest⟩ := ih
    refine ⟨rest, ?_, fun hall => ?_⟩
    · rw [pieces_append_of_first hfirst happend, if_neg hfailure,
        List.takeWhile_cons_of_pos (by simp [piece, hopen]), List.cons_append, ← heq, hstop]
    · rw [hrest fun p hp => hall p (List.mem_cons_of_mem _ hp), hstop, ← Mark.after_append,
        List.cons_append, List.take_append_drop]

/-- Behind a line end, a mark is that of the start of a text, further down. -/
theorem after_newline (cs : List Char) :
    (Mark.after .start cs).after ['\n'] = Mark.down (cs.length + 1) (1 + cs.count '\n') .start := by
  rw [← Mark.after_append]
  ext
  · simp [Mark.down]
  · simp [Mark.line_after, Mark.down, Nat.add_comm]
  · rw [Mark.lineStart_after, if_neg (by simp), lastLineStart_append (by simp)]
    simp [Mark.down, lastLineStart]

/-- Cutting begins anew behind a line end. -/
theorem pieces_newline (cs ds : List Char) :
    pieces (Mark.after .start cs) ('\n' :: ds) =
      ⟨.newline, ['\n'], Mark.after .start cs⟩ ::
        (pieces .start ds).map (Piece.down (cs.length + 1) (1 + cs.count '\n')) := by
  have hfirst : Rule.first '\n' ds = (.newline, 0) := rfl
  rw [pieces_of_first hfirst, ← pieces_down, ← after_newline]
  rfl

/-! ## Outcomes -/

namespace Token

variable {source source' : List Char} {ps qs rest : List Piece}

theorem ofPieces_append_of_ok {tokens : List Token} (h : ofPieces source ps = .ok tokens) :
    ofPieces source (ps ++ qs) = (ofPieces source qs).map (tokens ++ ·) := by
  induction ps generalizing tokens with
  | nil =>
    cases h
    cases hqs : ofPieces source qs with
    | ok more => exact hqs
    | error fault => exact hqs
  | cons p ps ih =>
    obtain ⟨t?, more, htoken, hps, rfl⟩ := ofPieces_cons_eq_ok_iff.mp h
    rw [List.cons_append, ofPieces_ok htoken, ih hps]
    cases ofPieces source qs with
    | error fault => rfl
    | ok rest => simp [Except.map]

theorem token?_of_not_open {p : Piece} (h : p.rule.isOpen = false) (source source' : List Char) :
    p.token? source = p.token? source' := by
  obtain ⟨rule, text, mark⟩ := p
  cases rule with
  | openComment => cases h
  | _ => rfl

theorem ofPieces_of_not_open (h : ∀ p ∈ ps, p.rule.isOpen = false) (source source' : List Char) :
    ofPieces source ps = ofPieces source' ps := by
  induction ps with
  | nil => rfl
  | cons p ps ih =>
    obtain ⟨hp, hps⟩ := List.forall_mem_cons.mp h
    rw [ofPieces, ofPieces, token?_of_not_open hp source source', ih hps]

/-- The fault of a character or of an escape is found before any piece that looks for its end. -/
theorem ofPieces_takeWhile {fault : Fault} (h : ofPieces source ps = .error fault)
    (hcomment : fault.cause ≠ .unterminatedComment)
    (hstring : fault.cause ≠ .unterminatedString) :
    ofPieces source' (ps.takeWhile (fun p => !p.rule.isOpen) ++ rest) = .error fault := by
  induction ps with
  | nil => cases h
  | cons p ps ih =>
    cases hopen : p.rule.isOpen with
    | true =>
      obtain ⟨rule, text, mark⟩ := p
      cases rule with
      | openComment =>
        cases h
        exact absurd rfl hcomment
      | openString =>
        cases h
        exact absurd rfl hstring
      | _ => cases hopen
    | false =>
      rw [List.takeWhile_cons_of_pos (by simp [hopen]), List.cons_append]
      have htext := token?_of_not_open hopen source source'
      cases htoken : p.token? source with
      | error other =>
        rw [ofPieces_error htoken] at h
        rw [htext] at htoken
        rw [ofPieces_error htoken, h]
      | ok t? =>
        rw [ofPieces_ok htoken] at h
        rw [htext] at htoken
        rw [ofPieces_ok htoken]
        cases hps : ofPieces source ps with
        | ok tokens =>
          rw [hps] at h
          cases h
        | error other =>
          rw [hps] at h
          rw [ih (hps.trans h)]
          rfl

variable {first second : String}

theorem toList_joined (first second : String) :
    (first ++ "\n" ++ second).toList = first.toList ++ '\n' :: second.toList := by
  simp

theorem after_joined (cs ds : List Char) :
    Place.after {} (cs ++ '\n' :: ds) = (Place.after {} ds).down (1 + cs.count '\n') := by
  have hjoined : (Mark.after .start (cs ++ '\n' :: ds)).place =
      (Mark.down (cs.length + 1) (1 + cs.count '\n') (Mark.after .start ds)).place := by
    rw [← Mark.after_down, ← after_newline, Mark.after_append]
    rfl
  rw [Mark.place_after] at hjoined
  refine hjoined.trans ((Mark.placeOf_down ..).trans ?_)
  exact congrArg (Place.down _) (Mark.place_after ..)

/-- Behind a text with tokens, the outcome of the second text, further down. -/
theorem ofSource_joined_of_ok {body : List Token}
    (h : ofPieces first.toList (pieces .start first.toList) = .ok body) (second : String) :
    ofSource (first ++ "\n" ++ second) =
      (outcomeDown (1 + first.toList.count '\n')
        (List.map (Token.down (1 + first.toList.count '\n'))) (ofSource second)).map
        (body ++ ·) := by
  have hfailure := isFailure_of_ok h
  have hopen : ∀ p ∈ pieces .start first.toList, p.rule.isOpen = false :=
    fun p hp => Rule.isOpen_of_isFailure (hfailure p hp)
  obtain ⟨rest, hpieces, hrest⟩ := pieces_append_newline .start first.toList second.toList
  rw [List.takeWhile_eq_self_iff.mpr (by simpa using hopen), hrest hfailure, pieces_newline]
    at hpieces
  have hdown := ofPieces_down (first.toList ++ ['\n']) second.toList
    (1 + first.toList.count '\n') (pieces .start second.toList)
  rw [List.append_assoc, List.singleton_append, List.length_append, List.length_singleton] at hdown
  rw [ofSource_eq, ofSource_eq, toList_joined, hpieces]
  rw [ofPieces_of_not_open hopen _ (first.toList ++ '\n' :: second.toList)] at h
  rw [ofPieces_append_of_ok h, ofPieces_none rfl, after_joined, hdown]
  cases ofPieces second.toList (pieces .start second.toList) with
  | error fault => rfl
  | ok more => simp [Except.map, outcomeDown, Token.down, endAt]

/-- Joining two texts by a line end joins their tokens.

If the first text has tokens, the joined text has these, without their end of input, and then those
of the second text, further down by the lines of the first; or it has the fault of the second text,
further down.  If the first text has the fault of an unexpected character or an unknown escape, the
joined text has the same one. -/
theorem ofSource_joined (first second : String) :
    (∀ tokens, ofSource first = .ok tokens →
      ∃ body stop, tokens = body ++ [stop] ∧ stop.kind = .endOfInput ∧
        (∀ more, ofSource second = .ok more → ofSource (first ++ "\n" ++ second) =
          .ok (body ++ more.map (Token.down (1 + first.toList.count '\n')))) ∧
        ∀ fault, ofSource second = .error fault → ofSource (first ++ "\n" ++ second) =
          .error (fault.down (1 + first.toList.count '\n'))) ∧
    ∀ fault, ofSource first = .error fault →
      (∃ c, fault.cause = .unexpectedCharacter c ∨ fault.cause = .unknownEscape c) →
        ofSource (first ++ "\n" ++ second) = .error fault := by
  constructor
  · intro tokens h
    obtain ⟨body, hbody, rfl⟩ := ofSource_eq_ok_iff.mp h
    refine ⟨body, _, rfl, rfl, fun more hmore => ?_, fun fault hfault => ?_⟩
    · rw [ofSource_joined_of_ok hbody, hmore]
      rfl
    · rw [ofSource_joined_of_ok hbody, hfault]
      rfl
  · rintro fault h ⟨c, hcause⟩
    obtain ⟨rest, hpieces, _⟩ := pieces_append_newline .start first.toList second.toList
    apply ofSource_eq_error_iff.mpr
    rw [toList_joined, hpieces]
    apply ofPieces_takeWhile (ofSource_eq_error_iff.mp h)
    · rcases hcause with hcause | hcause <;> simp [hcause]
    · rcases hcause with hcause | hcause <;> simp [hcause]

end Token

end TokenWalk
