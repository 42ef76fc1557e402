import Mathlib.Data.List.Forall2
import TokenWalk.Proofs.Layout

/-!
# `var` and `let` are interchangeable

A list of tokens in which some declaration keywords are spelled the other way runs like the list it
comes from, wherever these keywords stand: before a declaration, in place of an operand, behind a
missing brace or in a block that is passed over.  The two runs are set side by side by the pairing
`respelled`.  Nothing asks for one of the two keywords alone, so all that can differ is the wording
of a fault that quotes one of them (`Fault.Respelled`).
-/

namespace TokenWalk

variable {ts ts' : List Token} {t t' : Token}

/-! ## Tokens -/

/-- The second token is the first one, or both are declaration keywords at one place. -/
def Token.Respelled (t t' : Token) : Prop :=
  t = t' ∨ t.Declares ∧ t'.Declares ∧ t.place = t'.place

/-- The tokens are the same, or they are declaration keywords with one index and one place. -/
def Token.SameOrRespelled (ts ts' : List Token) (t t' : Token) : Prop :=
  t = t' ∨ ∃ i : Nat, ts[i]? = some t ∧ ts'[i]? = some t' ∧ t.Declares ∧ t'.Declares ∧
    t.place = t'.place

instance (t : Token) : Decidable t.Declares :=
  inferInstanceAs (Decidable (_ ∧ _))

instance (t t' : Token) : Decidable (t.Respelled t') :=
  inferInstanceAs (Decidable (_ ∨ _))

theorem Token.Respelled.place_eq (h : t.Respelled t') : t.place = t'.place := by
  rcases h with rfl | ⟨-, -, hplace⟩
  · rfl
  · exact hplace

namespace Token.SameOrRespelled

theorem place_eq (h : SameOrRespelled ts ts' t t') : t.place = t'.place := by
  rcases h with rfl | ⟨i, -, -, -, -, hplace⟩
  · rfl
  · exact hplace

theorem kind_eq (h : SameOrRespelled ts ts' t t') : t.kind = t'.kind := by
  rcases h with rfl | ⟨i, -, -, hdeclares, hdeclares', -⟩
  · rfl
  · rw [hdeclares.1, hdeclares'.1]

theorem text_eq (h : SameOrRespelled ts ts' t t') :
    t.text = t'.text ∨ t.Declares ∧ t'.Declares := by
  rcases h with rfl | ⟨i, -, -, hdeclares, hdeclares', -⟩
  · exact .inl rfl
  · exact .inr ⟨hdeclares, hdeclares'⟩

end Token.SameOrRespelled

/-- The fault that finds a declaration keyword quotes it, and says the same of both. -/
theorem exists_text_unexpected (expected : Expectation) :
    ∃ front back : String, ∀ t : Token, t.Declares →
      (Cause.unexpectedToken expected t).text = front ++ t.text ++ back := by
  refine ⟨"Expected " ++ expected.words ++ " but found " ++ "KEYWORD" ++ " '", "'", ?_⟩
  intro t h
  have hdescribe : t.describe = "KEYWORD" ++ " '" ++ t.text ++ "'" := by
    simp [Token.describe, h.1, Kind.name]
  show "Expected " ++ expected.words ++ " but found " ++ t.describe = _
  simp only [hdescribe, String.append_assoc]

/-! ## Faults -/

/-- The faults are of one family and point at one place of one file.  They have one cause, unless
they are about declaration keywords that have one index; then their texts differ only where they
quote these. -/
structure Fault.Respelled (ts ts' : List Token) (f f' : Fault) : Prop where
  family : f.cause.family = f'.cause.family
  line : f.line = f'.line
  column : f.column = f'.column
  file : f.file = f'.file
  cause : f.cause = f'.cause ∨ ∃ (i : Nat) (t t' : Token) (front back : String),
    ts[i]? = some t ∧ ts'[i]? = some t' ∧ t.Declares ∧ t'.Declares ∧ f.PointsAt t ∧
      f.cause.text = front ++ t.text ++ back ∧ f'.cause.text = front ++ t'.text ++ back

theorem Fault.Respelled.inFile {f f' : Fault} (h : f.Respelled ts ts' f') (file : String) :
    (f.inFile file).Respelled ts ts' (f'.inFile file) :=
  ⟨h.family, h.line, h.column, congrArg (Option.or · (some file)) h.file, h.cause⟩

theorem Fault.Respelled.refl (f : Fault) : f.Respelled ts ts' f :=
  ⟨rfl, rfl, rfl, rfl, .inl rfl⟩

/-- Faults that find tokens in place of what they expect. -/
theorem Fault.respelled_unexpected (h : Token.SameOrRespelled ts ts' t t')
    (expected : Expectation) :
    (Fault.ofPlace t.place (.unexpectedToken expected t)).Respelled ts ts'
      (.ofPlace t'.place (.unexpectedToken expected t')) := by
  rcases h with rfl | ⟨i, ht, ht', hdeclares, hdeclares', hplace⟩
  · exact .refl _
  · obtain ⟨front, back, htext⟩ := exists_text_unexpected expected
    rw [← hplace]
    exact ⟨rfl, rfl, rfl, rfl, .inr ⟨i, t, t', front, back, ht, ht', hdeclares, hdeclares',
      ⟨rfl, rfl⟩, htext t hdeclares, htext t' hdeclares'⟩⟩

/-! ## Runs -/

namespace Pairing

/-- Runs over tokens that differ only in the spelling of declaration keywords. -/
def respelled (ts ts' : List Token) : Pairing where
  token := Token.SameOrRespelled ts ts'
  stop := Stop.UpTo (Fault.Respelled ts ts')
  lenient := False
  tail := []
  tail' := []
  kind_eq h := h.kind_eq
  text_eq h := h.text_eq
  locate h e := by
    rw [h.place_eq]
    cases e with
    | fault f => exact Fault.Respelled.refl _
    | abort a => rfl
  unexpected h expected := Fault.respelled_unexpected h expected
  tails := .inl ⟨id, .inl ⟨rfl, rfl⟩⟩

/-- Ends of respelled lists go side by side.  The fronts before them have one length, which is the
index of the tokens that come next. -/
theorem beside_respelled {front front' rest rest' : List Token} (hts : ts = front ++ rest)
    (hts' : ts' = front' ++ rest') (hlength : front.length = front'.length)
    (h : List.Forall₂ Token.Respelled rest rest') :
    Beside (Token.SameOrRespelled ts ts') [] [] rest rest' := by
  induction h generalizing front front' with
  | nil => exact .tails
  | @cons t t' rest rest' htoken hrest ih =>
    refine .cons ?_ ?_
    · rcases htoken with heq | ⟨hdeclares, hdeclares', hplace⟩
      · exact .inl heq
      · refine .inr ⟨front.length, ?_, ?_, hdeclares, hdeclares', hplace⟩
        · simp [hts]
        · simp [hts', hlength]
    · have hnext : ts = (front ++ [t]) ++ rest := by simp [hts]
      have hnext' : ts' = (front' ++ [t']) ++ rest' := by simp [hts']
      exact ih hnext hnext' (by simp [hlength])

/-- Cursors at one position of respelled lists. -/
theorem cursors_respelled {c c' : Cursor} (h : List.Forall₂ Token.Respelled c.tokens c'.tokens)
    (hposition : c.position = c'.position) :
    (respelled c.tokens c'.tokens).Cursors c c' := by
  refine ⟨?_, fun _ => .inl ?_⟩
  · obtain ⟨front, hfront⟩ := c.rest_suffix
    obtain ⟨front', hfront'⟩ := c'.rest_suffix
    have hlength : front.length = front'.length := by
      unfold Cursor.position at hposition
      rw [← hfront, ← hfront', List.length_append, List.length_append] at hposition
      omega
    have hdrop := List.forall₂_drop front.length h
    rw [← hfront, List.drop_left, ← hfront', hlength, List.drop_left] at hdrop
    exact beside_respelled hfront.symm hfront'.symm hlength hdrop
  · have hplaces : c.tokens.map Token.place = c'.tokens.map Token.place :=
      List.forall₂_eq_eq_eq ▸ List.forall₂_map_left_iff.mpr
        (List.forall₂_map_right_iff.mpr (h.imp fun _ _ ht => ht.place_eq))
    have hlast := congrArg List.getLast? hplaces
    rw [List.getLast?_map, List.getLast?_map] at hlast
    have helim : ∀ o : Option Token, o.elim {} Token.place = (o.map Token.place).getD {} := by
      intro o
      cases o <;> rfl
    unfold Cursor.sentinel
    rw [helim, helim, hlast]

end Pairing

namespace Machine

/-- Execution from one session and one position of two lists that differ only in the spelling of
declaration keywords: the same values are printed, the same global bindings and the same position
are left, and if one execution ends with a fault, so does the other, with one of the same family at
the same place, whose text differs at most in the keyword that it quotes. -/
theorem execute_respelled (limits : Limits) (file : String) (session : Session) {c c' : Cursor}
    (htokens : List.Forall₂ Token.Respelled c.tokens c'.tokens)
    (hposition : c.position = c'.position) :
    (observe toSession (execute limits file { session with cursor := c })).UpTo
        (Fault.Respelled c.tokens c'.tokens)
        (observe toSession (execute limits file { session with cursor := c' })) ∧
      (final (execute limits file { session with cursor := c })).cursor.position =
        (final (execute limits file { session with cursor := c' })).cursor.position := by
  have hbegin : (Pairing.respelled c.tokens c'.tokens).Machines { session with cursor := c }
      { session with cursor := c' } :=
    ⟨Pairing.cursors_respelled htokens hposition, rfl, rfl⟩
  obtain ⟨hobserve, hcursors⟩ :=
    hbegin.execute (.inl rfl) id limits file id fun hf => hf.inFile file
  refine ⟨hobserve, ?_⟩
  unfold Cursor.position
  rw [tokens_execute, tokens_execute, hcursors.length_rest rfl rfl, htokens.length_eq]

/-- The tokens of `let x = "a" if x == "b" { let } print(x) print(let)`, with either keyword. -/
def declaring (keyword : String) : List Token :=
  [⟨.keyword, keyword, ⟨1, 1⟩⟩, ⟨.identifier, "x", ⟨1, 5⟩⟩, ⟨.operator, "=", ⟨1, 7⟩⟩,
    ⟨.string, "a", ⟨1, 9⟩⟩, ⟨.keyword, "if", ⟨1, 13⟩⟩, ⟨.identifier, "x", ⟨1, 16⟩⟩,
    ⟨.operator, "==", ⟨1, 18⟩⟩, ⟨.string, "b", ⟨1, 21⟩⟩, ⟨.punctuation, "\x7b", ⟨1, 25⟩⟩,
    ⟨.keyword, keyword, ⟨1, 27⟩⟩, ⟨.punctuation, "\x7d", ⟨1, 31⟩⟩, ⟨.keyword, "print", ⟨1, 33⟩⟩,
    ⟨.punctuation, "(", ⟨1, 38⟩⟩, ⟨.identifier, "x", ⟨1, 39⟩⟩, ⟨.punctuation, ")", ⟨1, 40⟩⟩,
    ⟨.keyword, "print", ⟨1, 42⟩⟩, ⟨.punctuation, "(", ⟨1, 47⟩⟩, ⟨.keyword, keyword, ⟨1, 48⟩⟩,
    ⟨.punctuation, ")", ⟨1, 51⟩⟩, .endAt ⟨1, 52⟩]

/-- The keyword declares, is passed over and is found in place of a value; only the fault for the
last of these quotes it. -/
theorem execute_declaring_respelled :
    List.Forall₂ Token.Respelled (declaring "let") (declaring "var") ∧
      (Cursor.start (declaring "let")).position = (Cursor.start (declaring "var")).position ∧
      (observe toSession (execute ⟨1, 1⟩ "f" (Session.load {} (declaring "let")))).UpTo
        (Fault.Respelled (declaring "let") (declaring "var"))
        (observe toSession (execute ⟨1, 1⟩ "f" (Session.load {} (declaring "var")))) ∧
      (final (execute ⟨1, 1⟩ "f" (Session.load {} (declaring "let")))).cursor.position =
        (final (execute ⟨1, 1⟩ "f" (Session.load {} (declaring "var")))).cursor.position ∧
      (final (execute ⟨1, 1⟩ "f" (Session.load {} (declaring "let")))).printed = #[.str "a"] := by
  have htokens : List.Forall₂ Token.Respelled (declaring "let") (declaring "var") := by decide
  have hposition :
      (Cursor.start (declaring "let")).position = (Cursor.start (declaring "var")).position := rfl
  obtain ⟨hobserve, hend⟩ := execute_respelled ⟨1, 1⟩ "f" {} htokens hposition
  exact ⟨htokens, hposition, hobserve, hend, by decide +kernel⟩

end Machine

end TokenWalk
