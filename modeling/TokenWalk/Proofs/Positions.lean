import TokenWalk.Proofs.Lexemes

/-!
# Positions

Cutting carries a place from piece to piece.  `placeAt` is the place that a reader would count: it
looks at the whole text before an offset and at nothing else.  The two agree, so the places of
tokens and faults are where they stand in the source text.
-/

namespace TokenWalk

/-- The place behind a text, counted: one more line than it has line ends, and one more column than
there are characters behind the last of them. -/
def placeAt (before : List Char) : Place :=
  ⟨1 + before.count '\n', 1 + (before.reverse.takeWhile (· != '\n')).length⟩

theorem placeAt_concat (before : List Char) (c : Char) :
    placeAt (before ++ [c]) = (placeAt before).next c := by
  by_cases hc : c = '\n'
  · subst hc
    simp [placeAt, Place.next, Nat.add_assoc]
  · have hbne : (c != '\n') = true := bne_iff_ne.mpr hc
    simp [placeAt, Place.next, hc, hbne, Nat.add_assoc]

/-- The place carried along is the counted one. -/
theorem after_eq_placeAt (before : List Char) : Place.after {} before = placeAt before := by
  induction before using List.reverseRecOn with
  | nil => rfl
  | append_singleton before c ih =>
    rw [Place.after_append, ih, placeAt_concat]
    rfl

theorem placeAt_pos (before : List Char) : 0 < (placeAt before).line ∧ 0 < (placeAt before).column :=
  ⟨Nat.add_pos_left Nat.one_pos _, Nat.add_pos_left Nat.one_pos _⟩

theorem Lexeme.Spells.kind_ne_endOfInput {l : Lexeme} {kind : Kind} {text : String}
    (h : l.Spells kind text) : kind ≠ .endOfInput := by
  cases h <;> exact Kind.noConfusion

/-- Only a string literal stands for the empty text. -/
theorem Lexeme.Spells.allowsEmpty {l : Lexeme} {kind : Kind} {text : String}
    (h : l.Spells kind text) (hmem : l.text ∈ l.rule.language) (hempty : text = "") :
    kind.allowsEmpty = true := by
  have hword : ∀ {rule : Rule} {w : List Char}, w ∈ rule.language → String.ofList w ≠ "" := by
    intro rule w hw heq
    rw [String.ofList_eq_empty_iff.mp heq] at hw
    exact Rule.nil_notMem_language rule hw
  cases h with
  | string _ => rfl
  | keyword _ => exact absurd hempty (hword hmem)
  | identifier _ => exact absurd hempty (hword hmem)
  | integer => exact absurd hempty (hword hmem)
  | float => exact absurd hempty (hword hmem)
  | operator => exact absurd hempty (hword hmem)
  | punctuation => exact absurd hempty (hword hmem)

namespace Token

/-- The checks of the constructor, passed by a token. -/
theorem make_self {t : Token} (hline : 0 < t.place.line) (hcolumn : 0 < t.place.column)
    (htext : t.text = "" → t.kind.allowsEmpty = true) :
    make t.kind.name t.text t.place.line t.place.column = .ok t := by
  have hplace : (decide ((t.place.line : Int) < 1) || decide ((t.place.column : Int) < 1)) = false := by
    simp only [Bool.or_eq_false_iff, decide_eq_false_iff_not]
    omega
  have hempty : (t.text.isEmpty && !t.kind.allowsEmpty) = false := by
    cases hkind : t.kind.allowsEmpty with
    | true => simp
    | false =>
      have hne : t.text ≠ "" := fun h => by
        rw [htext h] at hkind
        cases hkind
      simpa using hne
  simp only [make, Kind.ofName?_name, hplace, hempty, Bool.false_eq_true, if_false,
    Int.toNat_natCast]

/-- The token of a lexeme passes the checks of the constructor. -/
theorem make_of_marks {o : List Char × Lexeme} {t : Token} (h : Marks o t)
    (hmem : o.2.text ∈ o.2.rule.language) :
    make t.kind.name t.text t.place.line t.place.column = .ok t := by
  obtain ⟨hspells, hplace⟩ := h
  obtain ⟨hline, hcolumn⟩ := placeAt_pos o.1
  rw [← after_eq_placeAt, ← hplace] at hline hcolumn
  exact make_self hline hcolumn (hspells.allowsEmpty hmem)

theorem make_endAt (before : List Char) :
    make (endAt (placeAt before)).kind.name (endAt (placeAt before)).text
      (endAt (placeAt before)).place.line (endAt (placeAt before)).place.column =
        .ok (endAt (placeAt before)) := by
  obtain ⟨hline, hcolumn⟩ := placeAt_pos before
  exact make_self hline hcolumn fun _ => rfl

/-- The tokens of a cut stand where their lexemes do. -/
theorem forall₂_placeAt {cs : List Char} {ls : List Lexeme} {body : List Token} (hcut : Cut cs ls)
    (hmarks : List.Forall₂ Marks (visible [] ls) body) :
    List.Forall₂ (fun o t => ∃ rest, cs = o.1 ++ o.2.text ++ rest ∧
      o.2.Spells t.kind t.text ∧ t.place = placeAt o.1) (visible [] ls) body := by
  have hstand : ∀ o ∈ visible [] ls, ∃ rest, cs = o.1 ++ o.2.text ++ rest := by
    intro o ho
    obtain ⟨rest, hrest⟩ := (mem_of_mem_visible ho).2
    rw [List.nil_append, hcut.flatMap_text] at hrest
    exact ⟨rest, hrest⟩
  refine ((List.forall₂_and_left _ _).mpr ⟨hstand, hmarks⟩).imp ?_
  rintro o t ⟨⟨rest, hrest⟩, hspells, hplace⟩
  exact ⟨rest, hrest, hspells, hplace.trans (after_eq_placeAt o.1)⟩

/-- The places of a source text are where a count of its characters puts them.

If it has tokens, each stands at the counted place of its lexeme, one end of input is the last token
and stands at the end of the text, and every token passes the checks of the constructor.  If it has
a fault, that of its first faulty lexeme, the fault is at the counted place of that lexeme, or at the
end of the text for a comment that never ends. -/
theorem ofSource_placeAt (source : String) :
    ∃ ls, Cut source.toList ls ∧
      (∀ tokens, ofSource source = .ok tokens →
        (∀ t ∈ tokens, make t.kind.name t.text t.place.line t.place.column = .ok t) ∧
        ∃ body, tokens = body ++ [endAt (placeAt source.toList)] ∧
          (∀ t ∈ body, t.kind ≠ .endOfInput) ∧
          List.Forall₂ (fun o t => ∃ rest, source.toList = o.1 ++ o.2.text ++ rest ∧
            o.2.Spells t.kind t.text ∧ t.place = placeAt o.1) (visible [] ls) body) ∧
      ∀ fault, ofSource source = .error fault →
        ∃ front l back cause, ls = front ++ l :: back ∧ (∀ k ∈ front, k.Sound) ∧
          l.Faulty cause ∧ fault = .ofPlace (l.faultPlace (placeAt source.toList)
            (placeAt (front.flatMap Lexeme.text))) cause := by
  obtain ⟨ls, hcut⟩ := exists_cut source.toList
  refine ⟨ls, hcut, ?_⟩
  have hplace : Place.after {} = placeAt := funext after_eq_placeAt
  rcases ofSource_cut hcut with ⟨body, heq, _, hmarks⟩ |
    ⟨front, l, back, cause, hls, hfront, hl, heq⟩
  · rw [hplace] at heq
    refine ⟨fun tokens h => ?_, fun fault h => ?_⟩
    · rw [heq] at h
      cases h
      refine ⟨fun t ht => ?_, body, rfl, fun t ht => ?_, forall₂_placeAt hcut hmarks⟩
      · rcases List.mem_append.mp ht with hbody | hstop
        · obtain ⟨o, ho, hmark⟩ := exists_marks_of_mem hmarks hbody
          exact make_of_marks hmark (hcut.mem_language (mem_of_mem_visible ho).1)
        · rw [List.mem_singleton.mp hstop]
          exact make_endAt source.toList
      · obtain ⟨o, _, hspells, _⟩ := exists_marks_of_mem hmarks ht
        exact hspells.kind_ne_endOfInput
    · rw [heq] at h
      cases h
  · rw [hplace] at heq
    refine ⟨fun tokens h => ?_, fun fault h => ?_⟩
    · rw [heq] at h
      cases h
    · rw [heq] at h
      exact ⟨front, l, back, cause, hls, hfront, hl, (Except.error.inj h).symm⟩

end Token

end TokenWalk
