import TokenWalk.Proofs.Kept
import TokenWalk.Proofs.Lockstep

/-!
# Fragments one after the other

If a fragment runs to its end, running it and then another one is running the two as one fragment,
with a semicolon between them.

The proof sets two pairs of runs side by side.  Up to the end of the first fragment, its own run is
paired with the run of the joined one by `upTo`: whatever ends at the end of input ends at the
semicolon, too.  From there on the run of the second fragment is paired with the rest of the joined
one by `same`, which asks for the same tokens and so gives the same stops.
-/

namespace TokenWalk

namespace Pairing

/-- Runs over the same tokens. -/
def same : Pairing where
  token := Eq
  stop := Eq
  lenient := False
  tail := []
  tail' := []
  kind_eq h := congrArg Token.kind h
  text_eq h := .inl (congrArg Token.text h)
  locate h e := by rw [h]
  unexpected h expected := by rw [h]
  tails := .inl ⟨id, .inl ⟨rfl, rfl⟩⟩

/-- Runs over the same tokens up to an end of input, where the second list goes on with a mark. -/
def upTo (stop mark : Token) (more : List Token) (hstop : stop.kind = .endOfInput)
    (hmark : mark.kind = .punctuation) : Pairing where
  token := Eq
  stop := Eq
  lenient := True
  tail := [stop]
  tail' := mark :: more
  kind_eq h := congrArg Token.kind h
  text_eq h := .inl (congrArg Token.text h)
  locate h e := by rw [h]
  unexpected h expected := by rw [h]
  tails := .inr ⟨trivial, ⟨stop, [], rfl, hstop⟩, mark, more, rfl, by simp [hmark], by simp [hmark]⟩

theorem beside_append (tokens tail tail' : List Token) :
    Beside Eq tail tail' (tokens ++ tail) (tokens ++ tail') := by
  induction tokens with
  | nil => exact .tails
  | cons t tokens ih => exact .cons rfl ih

/-- Cursors before the same tokens of lists with the same last token. -/
theorem cursors_same {c c' : Cursor} (hrest : c.rest = c'.rest)
    (hlast : c.tokens.getLast? = c'.tokens.getLast?) : same.Cursors c c' := by
  refine ⟨?_, fun _ => ?_⟩
  · have h := beside_append c.rest [] []
    rw [List.append_nil] at h
    rw [← hrest]
    exact h
  · show c.sentinel = c'.sentinel
    unfold Cursor.sentinel
    rw [hlast]

/-- Lists side by side are two fronts of one length before the tails. -/
theorem exists_front {token : Token → Token → Prop} {tail tail' ts ts' : List Token}
    (h : Beside token tail tail' ts ts') :
    ∃ front front', ts = front ++ tail ∧ ts' = front' ++ tail' ∧
      front.length = front'.length := by
  induction h with
  | tails => exact ⟨[], [], rfl, rfl, rfl⟩
  | @cons t t' ts ts' htoken hrest ih =>
    obtain ⟨front, front', hts, hts', hlength⟩ := ih
    refine ⟨t :: front, t' :: front', ?_, ?_, ?_⟩
    · rw [hts]
      rfl
    · rw [hts']
      rfl
    · rw [List.length_cons, List.length_cons, hlength]

/-- Cursors side by side in lists that are used up together have the same number of tokens left. -/
theorem Cursors.length_rest {p : Pairing} {c c' : Cursor} (h : p.Cursors c c')
    (htail : p.tail = []) (htail' : p.tail' = []) : c.rest.length = c'.rest.length := by
  obtain ⟨front, front', hfront, hfront', hlength⟩ := exists_front h.rest
  rw [hfront, hfront', htail, htail', List.append_nil, List.append_nil, hlength]

end Pairing

/-- A list that starts with an end of input and is an end of a list whose only end of input is the
last token. -/
theorem eq_singleton_of_suffix {tokens rest : List Token} {stop t : Token}
    (hfree : ∀ u ∈ tokens, u.kind ≠ .endOfInput) (ht : t.kind = .endOfInput)
    (h : t :: rest <:+ tokens ++ [stop]) : t :: rest = [stop] := by
  induction tokens with
  | nil =>
    obtain ⟨front, hfront⟩ := h
    cases front with
    | nil => exact hfront
    | cons u front =>
      have hlength := congrArg List.length hfront
      simp only [List.cons_append, List.length_cons, List.length_append, List.nil_append,
        List.length_nil] at hlength
      omega
  | cons u tokens ih =>
    rcases List.suffix_cons_iff.mp h with heq | hsuffix
    · cases heq
      exact absurd ht (hfree t List.mem_cons_self)
    · exact ih (fun v hv => hfree v (List.mem_cons_of_mem u hv)) hsuffix

/-- An execution stays over its tokens. -/
theorem Machine.tokens_execute (limits : Limits) (file : String) (m : Machine) :
    (final (execute limits file m)).cursor.tokens = m.cursor.tokens := by
  rw [execute_eq, cursor_conclude]
  have hkept := (kept_depth m.cursor.tokens).statements limits (m.started file) rfl
  exact (hkept.final : Walk.Leads m.cursor.tokens _ _ _).1

/-! ## What a host sees -/

/-- Executions look the same if their statements end alike. -/
theorem observe_execute_eq {limits : Limits} {file : String} {m m' : Machine}
    (h : Answers False
      (fun _ n _ n' => n.printed = n'.printed ∧ n.scopes = n'.scopes)
      (fun e n f n' => e = f ∧ n.printed = n'.printed ∧ n.scopes = n'.scopes)
      (Walk.statements limits (m.started file)) (Walk.statements limits (m'.started file))) :
    observe Machine.toSession (Machine.execute limits file m) =
      observe Machine.toSession (Machine.execute limits file m') := by
  cases hr : Walk.statements limits (m.started file) with
  | ok _ n =>
    rw [hr] at h
    obtain ⟨_, n', hr', hprinted, hscopes⟩ := h.ok_left
    rw [Machine.execute_of_ok hr, Machine.execute_of_ok hr']
    simp only [observe, hprinted, hscopes]
  | error e n =>
    cases hr' : Walk.statements limits (m'.started file) with
    | ok _ n' =>
      rw [hr, hr'] at h
      exact h.elim
    | error f n' =>
      rw [hr, hr'] at h
      obtain ⟨rfl, hprinted, hscopes⟩ := h.resolve_left id
      cases e with
      | fault fault =>
        rw [Machine.execute_of_fault hr, Machine.execute_of_fault hr']
        simp only [observe, hprinted, hscopes]
      | abort abort =>
        rw [Machine.execute_of_abort hr, Machine.execute_of_abort hr']
        simp only [observe, hprinted, hscopes]

namespace Session

variable {limits : Limits} {tokens : List Token} {file : String} {session session' : Session}

theorem observe_runTokens :
    observe id (runTokens limits tokens file session) =
      observe Machine.toSession (Machine.execute limits file (session.load tokens)) := by
  unfold runTokens
  cases Machine.execute limits file (session.load tokens) with
  | ok result m => rfl
  | error abort m => rfl

/-- A fragment that ends without a fault. -/
theorem statements_of_runTokens (h : runTokens limits tokens file session = .ok none session') :
    ∃ e, Walk.statements limits ((session.load tokens).started file) = .ok () e ∧
      session' = { e.toSession with scopes := e.scopes.reset } := by
  unfold runTokens at h
  cases hr : Walk.statements limits ((session.load tokens).started file) with
  | ok _ e =>
    rw [Machine.execute_of_ok hr] at h
    cases h
    exact ⟨e, rfl, rfl⟩
  | error stop e =>
    cases stop with
    | fault fault =>
      rw [Machine.execute_of_fault hr] at h
      cases h
    | abort abort =>
      rw [Machine.execute_of_abort hr] at h
      cases h

/-- Where the statements of a fragment end, the statements of a longer one stand at the mark that
comes next, with the same bindings and the same values printed. -/
theorem statements_reach_mark {first : List Token} {stop mark : Token} {e : Machine}
    (more : List Token) (file' : String) (hfirst : ∀ t ∈ first, t.kind ≠ .endOfInput)
    (hstop : stop.kind = .endOfInput) (hmark : mark.kind = .punctuation)
    (h : Walk.statements limits ((session.load (first ++ [stop])).started file) = .ok () e) :
    ∃ e' bound, e'.cursor.tokens = first ++ mark :: more ∧ e'.cursor.rest = mark :: more ∧
      e.scopes = e'.scopes ∧ e.printed = e'.printed ∧ e'.cursor.rest.length ≤ bound.length ∧
      Walk.statements limits ((session.load (first ++ mark :: more)).started file') =
        Walk.untilEnd (Walk.statement limits) bound e' := by
  have hbegin : (Pairing.upTo stop mark more hstop hmark).Machines
      ((session.load (first ++ [stop])).started file)
      ((session.load (first ++ mark :: more)).started file') :=
    ⟨⟨Pairing.beside_append first [stop] (mark :: more), fun hstrict => absurd trivial hstrict⟩,
      rfl, rfl⟩
  obtain ⟨hatEnd, honward, bound, e', hmachines, honward', hbound, heq⟩ :=
    Pairing.untilEnd_eq_of_ok (.inr trivial) limits hbegin (Nat.le_refl _) (Nat.le_refl _) h
  refine ⟨e', bound, honward'.tokens_eq, ?_, hmachines.scopes, hmachines.printed, hbound, heq⟩
  obtain ⟨front, front', hfront, hfront', hlength⟩ := Pairing.exists_front hmachines.cursors.rest
  have hend : e.cursor.rest = [stop] := by
    have hsuffix : e.cursor.rest <:+ first ++ [stop] := honward.suffix
    have hkind : e.cursor.token.kind = .endOfInput := beq_iff_eq.mp hatEnd
    cases hcons : e.cursor.rest with
    | nil =>
      rw [hcons] at hfront
      exact absurd hfront.symm (by simp [Pairing.upTo])
    | cons t ts =>
      rw [Cursor.token_of_rest hcons] at hkind
      rw [hcons] at hsuffix
      exact eq_singleton_of_suffix hfirst hkind hsuffix
  have hnone : front'.length = 0 := by
    have hcount := congrArg List.length (hend.symm.trans hfront)
    simp only [Pairing.upTo, List.length_append, List.length_cons, List.length_nil] at hcount
    omega
  rw [List.eq_nil_of_length_eq_zero hnone] at hfront'
  exact hfront'

/-- The statements of a fragment and then of another one are the statements of the two joined by a
mark, which is passed over. -/
theorem answers_statements_append {first second : List Token} {stop last mark : Token}
    {file' : String} (hfirst : ∀ t ∈ first, t.kind ≠ .endOfInput)
    (hstop : stop.kind = .endOfInput) (hmark : mark.kind = .punctuation)
    (hglobal : session.scopes.depth = 1)
    (hrun : runTokens limits (first ++ [stop]) file session = .ok none session') :
    Answers False
      (fun _ n _ n' => n.printed = n'.printed ∧ n.scopes = n'.scopes)
      (fun e n f n' => e = f ∧ n.printed = n'.printed ∧ n.scopes = n'.scopes)
      (Walk.statements limits
        ((session.load (first ++ mark :: (second ++ [last]))).started file'))
      (Walk.statements limits ((session'.load (second ++ [last])).started file')) := by
  obtain ⟨e, hstatements, rfl⟩ := statements_of_runTokens hrun
  have hdepth : e.scopes.depth = 1 :=
    (((kept_depth _).statements limits _ rfl).of_ok hstatements).2.trans hglobal
  obtain ⟨e', bound, htokens, hrest, hscopes, hprinted, hbound, heq⟩ :=
    statements_reach_mark (second ++ [last]) file' hfirst hstop hmark hstatements
  have hkind : e'.cursor.token.kind = .punctuation := Cursor.token_of_rest hrest ▸ hmark
  have hpassed : Walk.statement limits e' = .ok () (Walk.passed e') :=
    Walk.statementWith_stray (by simp [hkind]) (by simp [hkind])
  obtain ⟨b, bound, rfl⟩ := Cursor.exists_bound (by simp [hkind]) hbound
  rw [heq, Walk.untilEnd_step (beq_eq_false_iff_ne.mpr (by simp [hkind])), bind_of_ok hpassed]
  -- Behind the mark the joined fragment does what the second one does.
  have hsecond : Pairing.same.Machines (Walk.passed e')
      ((Session.load { e.toSession with scopes := e.scopes.reset } (second ++ [last])).started
        file') := by
    refine ⟨Pairing.cursors_same ?_ ?_, ?_, hprinted.symm⟩
    · exact Cursor.rest_next_of_rest hrest
    · show e'.cursor.tokens.getLast? = (second ++ [last]).getLast?
      rw [htokens, ← List.cons_append, ← List.append_assoc, List.getLast?_concat,
        List.getLast?_concat]
    · show e'.scopes = e.scopes.reset
      rw [Scopes.reset_of_depth hdepth, hscopes]
  have hlength : (Walk.passed e').cursor.rest.length ≤ bound.length :=
    Cursor.length_next_le (by simp [hkind]) hbound
  have hwalked := Pairing.walked_untilEnd (.inl rfl) id limits hsecond hlength (Nat.le_refl _)
  refine Answers.mono hwalked ?_ ?_
  · intro _ n _ n' h
    exact ⟨h.2.printed, h.2.scopes⟩
  · intro e n f n' h
    exact ⟨h.1, h.2.printed, h.2.scopes⟩

/-- If a fragment without an end of input in it runs to its end, running it and then another one
shows a host the same as running both as one fragment with a semicolon between them: the printed
values, the global bindings and the result. -/
theorem observe_runTokens_append {first second : List Token} {stop last : Token} {place : Place}
    {file' : String} (hfirst : ∀ t ∈ first, t.kind ≠ .endOfInput)
    (hstop : stop.kind = .endOfInput) (hglobal : session.scopes.depth = 1)
    (hrun : runTokens limits (first ++ [stop]) file session = .ok none session') :
    observe id (runTokens limits
        (first ++ ⟨.punctuation, ";", place⟩ :: (second ++ [last])) file' session) =
      observe id (runTokens limits (second ++ [last]) file' session') := by
  rw [observe_runTokens, observe_runTokens]
  exact observe_execute_eq (answers_statements_append hfirst hstop rfl hglobal hrun)

/-- The tokens of `var x = "a"`. -/
def declaringX : List Token :=
  [⟨.keyword, "var", ⟨1, 1⟩⟩, ⟨.identifier, "x", ⟨1, 5⟩⟩, ⟨.operator, "=", ⟨1, 7⟩⟩,
    ⟨.string, "a", ⟨1, 9⟩⟩]

/-- The tokens of `print(x)`. -/
def printingX : List Token :=
  [⟨.keyword, "print", ⟨1, 1⟩⟩, ⟨.punctuation, "(", ⟨1, 6⟩⟩, ⟨.identifier, "x", ⟨1, 7⟩⟩,
    ⟨.punctuation, ")", ⟨1, 8⟩⟩]

/-- The expression of the first fragment ends at the end of input alone and at the semicolon in the
joined fragment, and the second fragment prints its value. -/
theorem observe_declaringX_printingX :
    ∃ session', runTokens ⟨1, 1⟩ (declaringX ++ [.endAt ⟨1, 12⟩]) "a" {} = .ok none session' ∧
      observe id (runTokens ⟨1, 1⟩ (declaringX ++ ⟨.punctuation, ";", ⟨1, 12⟩⟩ ::
          (printingX ++ [.endAt ⟨1, 9⟩])) "b" {}) =
        observe id (runTokens ⟨1, 1⟩ (printingX ++ [.endAt ⟨1, 9⟩]) "b" session') ∧
      (observe id (runTokens ⟨1, 1⟩ (printingX ++ [.endAt ⟨1, 9⟩]) "b" session')).printed =
        #[.str "a"] := by
  have hrun : runTokens ⟨1, 1⟩ (declaringX ++ [.endAt ⟨1, 12⟩]) "a" {} = .ok none _ := rfl
  refine ⟨_, hrun, observe_runTokens_append (by decide) rfl rfl hrun, ?_⟩
  decide +kernel

end Session

end TokenWalk
