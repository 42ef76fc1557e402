import TokenWalk.Proofs.Composition
import TokenWalk.Proofs.Course
import TokenWalk.Proofs.Rendering

/-!
# Layout does not matter

Two source texts whose tokens have the same kinds and texts run alike, however their blanks, line
ends and comments differ.  The runs are set side by side by the pairing `layout`: tokens stand for
each other if they have one label and stand at one index of the two lists.  All that is left of the
layout is where faults point and the place of the token that a fault may name (`Fault.Alike`).
-/

namespace TokenWalk

variable {ts ts' : List Token}

/-! ## Faults that differ in places -/

/-- The cause without the place of the token it names. -/
def Cause.unplaced : Cause → Cause
  | .unexpectedToken expected found => .unexpectedToken expected { found with place := {} }
  | cause => cause

theorem Cause.family_unplaced (cause : Cause) : cause.unplaced.family = cause.family := by
  cases cause <;> rfl

theorem Cause.text_unplaced (cause : Cause) : cause.unplaced.text = cause.text := by
  cases cause <;> rfl

/-- The fault points at the token. -/
def Fault.PointsAt (f : Fault) (t : Token) : Prop :=
  f.line = some (t.place.line : Int) ∧ f.column = some (t.place.column : Int)

/-- The faults are of one family, say the same of the same file, and differ only in places: they
point at the tokens that have one index in the two lists. -/
structure Fault.Alike (ts ts' : List Token) (f f' : Fault) : Prop where
  family : f.cause.family = f'.cause.family
  text : f.cause.text = f'.cause.text
  cause : f.cause.unplaced = f'.cause.unplaced
  file : f.file = f'.file
  points : ∃ (i : Nat) (t t' : Token), ts[i]? = some t ∧ ts'[i]? = some t' ∧
    f.PointsAt t ∧ f'.PointsAt t'

/-- Stops with faults that differ only in places, or with the same abort. -/
def Stop.Alike (ts ts' : List Token) : Stop → Stop → Prop
  | .fault f, .fault f' => f.Alike ts ts' f'
  | .abort a, .abort a' => a = a'
  | _, _ => False

theorem Fault.Alike.inFile {f f' : Fault} (h : f.Alike ts ts' f') (file : String) :
    (f.inFile file).Alike ts ts' (f'.inFile file) :=
  ⟨h.family, h.text, h.cause, congrArg (Option.or · (some file)) h.file, h.points⟩

/-! ## Tokens with one index -/

/-- The tokens have one label, and their places are those of the tokens with one index.  For the end
of input behind the last tokens, the index is that of the last ones. -/
structure Token.Counterpart (ts ts' : List Token) (t t' : Token) : Prop where
  label_eq : t.label = t'.label
  index : ∃ (i : Nat) (u u' : Token), ts[i]? = some u ∧ ts'[i]? = some u' ∧
    u.place = t.place ∧ u'.place = t'.place

namespace Token.Counterpart

variable {t t' : Token}

theorem kind_eq (h : Counterpart ts ts' t t') : t.kind = t'.kind :=
  congrArg Prod.fst h.label_eq

theorem text_eq (h : Counterpart ts ts' t t') : t.text = t'.text :=
  congrArg Prod.snd h.label_eq

/-- Faults whose causes differ only in places, pointed at the two tokens. -/
theorem alike (h : Counterpart ts ts' t t') {f f' : Fault}
    (hcause : f.cause.unplaced = f'.cause.unplaced) (hfile : f.file = f'.file)
    (hpoints : f.PointsAt t) (hpoints' : f'.PointsAt t') : f.Alike ts ts' f' where
  family := by rw [← f.cause.family_unplaced, hcause, f'.cause.family_unplaced]
  text := by rw [← f.cause.text_unplaced, hcause, f'.cause.text_unplaced]
  cause := hcause
  file := hfile
  points := by
    obtain ⟨i, u, u', hu, hu', hplace, hplace'⟩ := h.index
    refine ⟨i, u, u', hu, hu', ?_, ?_⟩
    · unfold Fault.PointsAt
      rw [hplace]
      exact hpoints
    · unfold Fault.PointsAt
      rw [hplace']
      exact hpoints'

end Token.Counterpart

namespace Pairing

/-- Runs over tokens that differ only in places. -/
def layout (ts ts' : List Token) : Pairing where
  token := Token.Counterpart ts ts'
  stop := Stop.Alike ts ts'
  lenient := False
  tail := []
  tail' := []
  kind_eq h := h.kind_eq
  text_eq h := .inl h.text_eq
  locate h e := by
    cases e with
    | fault f => exact h.alike rfl rfl ⟨rfl, rfl⟩ ⟨rfl, rfl⟩
    | abort a => rfl
  unexpected h expected := by
    refine h.alike ?_ rfl ⟨rfl, rfl⟩ ⟨rfl, rfl⟩
    simp only [Fault.ofPlace, Cause.unplaced, h.kind_eq, h.text_eq]
  tails := .inl ⟨id, .inl ⟨rfl, rfl⟩⟩

/-- Ends of lists with the same labels go side by side.  The fronts before them have one length,
which is the index of the tokens that come next. -/
theorem beside_layout {front front' rest rest' : List Token} (hts : ts = front ++ rest)
    (hts' : ts' = front' ++ rest') (hlength : front.length = front'.length)
    (hlabels : rest.map Token.label = rest'.map Token.label) :
    Beside (Token.Counterpart ts ts') [] [] rest rest' := by
  induction rest generalizing front front' rest' with
  | nil =>
    rw [List.map_nil, eq_comm, List.map_eq_nil_iff] at hlabels
    rw [hlabels]
    exact .tails
  | cons t rest ih =>
    cases rest' with
    | nil => cases hlabels
    | cons t' rest' =>
      obtain ⟨hlabel, hlabels⟩ := List.cons.inj hlabels
      refine .cons ⟨hlabel, front.length, t, t', ?_, ?_, rfl, rfl⟩ ?_
      · simp [hts]
      · simp [hts', hlength]
      · have hnext : ts = (front ++ [t]) ++ rest := by simp [hts]
        have hnext' : ts' = (front' ++ [t']) ++ rest' := by simp [hts']
        exact ih hnext hnext' (by simp [hlength]) hlabels

/-- Cursors before lists with the same labels, which have at least one token. -/
theorem cursors_layout (hlabels : ts.map Token.label = ts'.map Token.label) (hts : ts ≠ []) :
    (layout ts ts').Cursors (.start ts) (.start ts') := by
  have hlength : ts.length = ts'.length := by simpa using congrArg List.length hlabels
  have hpos : 0 < ts.length := List.length_pos_iff.mpr hts
  have hts' : ts' ≠ [] := List.length_pos_iff.mp (hlength ▸ hpos)
  have hbeside :=
    beside_layout (List.nil_append ts).symm (List.nil_append ts').symm rfl hlabels
  refine ⟨hbeside, fun _ =>
    ⟨rfl, ts.length - 1, ts.getLast hts, ts'.getLast hts', ?_, ?_, ?_, ?_⟩⟩
  · rw [← List.getLast?_eq_getElem?, List.getLast?_eq_some_getLast hts]
  · rw [hlength, ← List.getLast?_eq_getElem?, List.getLast?_eq_some_getLast hts']
  · simp [Cursor.sentinel, Cursor.start, Token.endAt, List.getLast?_eq_some_getLast hts]
  · simp [Cursor.sentinel, Cursor.start, Token.endAt, List.getLast?_eq_some_getLast hts']

end Pairing

/-! ## Runs -/

/-- A host sees the same values printed, the same global bindings and the same result, but for the
places of a fault. -/
structure Observation.Alike (ts ts' : List Token) (o o' : Observation) : Prop where
  printed : o.printed = o'.printed
  globals : o.globals = o'.globals
  result : match o.result, o'.result with
    | .ok fault?, .ok fault?' => Option.Rel (Fault.Alike ts ts') fault? fault?'
    | .error abort, .error abort' => abort = abort'
    | _, _ => False

/-- If the statements of two scripts go side by side, a host sees the same of the executions but for
places, and the same number of tokens is left. -/
theorem Machine.alike_conclude (file : String) {r r' : EStateM.Result Stop Machine Unit}
    (h : (Pairing.layout ts ts').Walked Eq r r') :
    (observe toSession (conclude file r)).Alike ts ts' (observe toSession (conclude file r')) ∧
      (final (conclude file r)).cursor.rest.length =
        (final (conclude file r')).cursor.rest.length := by
  have hstop : ∀ {e e' : Stop}, (Pairing.layout ts ts').stop e e' →
      e.UpTo (Fault.Alike ts ts') e' := by
    intro e e' he
    cases e <;> cases e' <;> exact he
  obtain ⟨hobserve, hcursors⟩ := h.conclude id file hstop fun hf => hf.inFile file
  exact ⟨⟨hobserve.printed, hobserve.globals, hobserve.result⟩, hcursors.length_rest rfl rfl⟩

namespace Session

/-- Two source texts with the same kinds and texts of tokens run alike from every session: the same
values are printed, the same global bindings and the same cursor are left, and if one run ends with
a fault, so does the other, with one of the same family and the same text that points at the token
with the same index. -/
theorem alike_run {source source' : String} (limits : Limits) (file : String) (session : Session)
    (hsource : Token.ofSource source = .ok ts) (hsource' : Token.ofSource source' = .ok ts')
    (hlabels : ts.map Token.label = ts'.map Token.label) :
    (observe id (run limits source file session)).Alike ts ts'
        (observe id (run limits source' file session)) ∧
      (final (Machine.execute limits file (session.load ts))).cursor.position =
        (final (Machine.execute limits file (session.load ts'))).cursor.position := by
  rw [run_of_ok hsource, run_of_ok hsource', observe_runTokens, observe_runTokens]
  have hne : ts ≠ [] := by
    obtain ⟨body, -, rfl⟩ := Token.ofSource_eq_ok_iff.mp hsource
    simp
  have hbegin : (Pairing.layout ts ts').Machines ((session.load ts).started file)
      ((session.load ts').started file) :=
    ⟨Pairing.cursors_layout hlabels hne, rfl, rfl⟩
  have hwalked : (Pairing.layout ts ts').Walked Eq
      (Walk.statements limits ((session.load ts).started file))
      (Walk.statements limits ((session.load ts').started file)) :=
    Pairing.walked_untilEnd (.inl rfl) id limits hbegin (Nat.le_refl _) (Nat.le_refl _)
  obtain ⟨halike, hrest⟩ := Machine.alike_conclude file hwalked
  rw [← Machine.execute_eq, ← Machine.execute_eq] at halike hrest
  refine ⟨halike, ?_⟩
  unfold Cursor.position
  rw [Machine.tokens_execute, Machine.tokens_execute, hrest]
  have hlength : ts.length = ts'.length := by simpa using congrArg List.length hlabels
  exact congrArg (· - _) hlength

/-- The tokens of `print("a") print(x)` on one line. -/
def compact : List Token :=
  [⟨.keyword, "print", ⟨1, 1⟩⟩, ⟨.punctuation, "(", ⟨1, 6⟩⟩, ⟨.string, "a", ⟨1, 7⟩⟩,
    ⟨.punctuation, ")", ⟨1, 10⟩⟩, ⟨.keyword, "print", ⟨1, 12⟩⟩, ⟨.punctuation, "(", ⟨1, 17⟩⟩,
    ⟨.identifier, "x", ⟨1, 18⟩⟩, ⟨.punctuation, ")", ⟨1, 19⟩⟩, .endAt ⟨1, 20⟩]

/-- The same on two lines, with a comment and blanks. -/
def spread : List Token :=
  [⟨.keyword, "print", ⟨1, 1⟩⟩, ⟨.punctuation, "(", ⟨1, 6⟩⟩, ⟨.string, "a", ⟨1, 8⟩⟩,
    ⟨.punctuation, ")", ⟨1, 12⟩⟩, ⟨.keyword, "print", ⟨2, 1⟩⟩, ⟨.punctuation, "(", ⟨2, 6⟩⟩,
    ⟨.identifier, "x", ⟨2, 8⟩⟩, ⟨.punctuation, ")", ⟨2, 10⟩⟩, .endAt ⟨2, 11⟩]

/-- The name that is not defined is found in the first line of one text and in the second line of
the other. -/
theorem alike_run_compact_spread :
    Token.ofSource "print(\"a\") print(x)" = .ok compact ∧
      Token.ofSource "print( \"a\" ) // b\nprint( x )" = .ok spread ∧
      compact.map Token.label = spread.map Token.label ∧
      (observe id (run ⟨1, 1⟩ "print(\"a\") print(x)" "f" {})).Alike compact spread
        (observe id (run ⟨1, 1⟩ "print( \"a\" ) // b\nprint( x )" "f" {})) ∧
      (final (Machine.execute ⟨1, 1⟩ "f" (load {} compact))).cursor.position =
        (final (Machine.execute ⟨1, 1⟩ "f" (load {} spread))).cursor.position := by
  have hcompact : Token.ofSource "print(\"a\") print(x)" = .ok compact := by decide +kernel
  have hspread : Token.ofSource "print( \"a\" ) // b\nprint( x )" = .ok spread := by decide +kernel
  have hlabels : compact.map Token.label = spread.map Token.label := by decide
  exact ⟨hcompact, hspread, hlabels, alike_run ⟨1, 1⟩ "f" {} hcompact hspread hlabels⟩

end Session

end TokenWalk
