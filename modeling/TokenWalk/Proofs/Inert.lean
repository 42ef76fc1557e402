import TokenWalk.Proofs.Composition
import TokenWalk.Proofs.Halting

/-!
# Code that is never entered

A block that a run only ever passes over may hold anything: exchanging what is inside shows the host
the same.

An `Exchange` is a block with two insides.  The runs over the two lists are paired up to the block
(`Exchange.pairing`) and paired again behind it, where the tokens are the same (`Outside`).  The one
way in between is the gate behind the opening brace.  From there the runs come out together if they
pass over the block (`ended_skipBlock`); a run that never enters the block does nothing else there
(`Shuns`).
-/

namespace TokenWalk

variable {α β : Type}

/-- A block with two insides, each of them balanced and without an end of input, and the tokens
behind it. -/
structure Exchange where
  opening : Token
  inside : List Token
  inside' : List Token
  closing : Token
  behind : List Token
  opens : opening.opensBlock = true
  closes : closing.closesBlock = true
  level_inside : Token.level 0 inside = some 0
  level_inside' : Token.level 0 inside' = some 0

namespace Exchange

variable {x : Exchange} {c c' : Cursor} {m m' : Machine}

/-! ## Cursors around the block -/

/-- Runs up to the block. -/
def pairing (x : Exchange) : Pairing :=
  { Pairing.same with
    tail := x.opening :: (x.inside ++ x.closing :: x.behind)
    tail' := x.opening :: (x.inside' ++ x.closing :: x.behind)
    tails := .inl ⟨id, .inr ⟨_, _, _, _, rfl, rfl, rfl, x.opens⟩⟩ }

/-- The cursors are before the block or behind it. -/
inductive Outside (x : Exchange) (c c' : Cursor) : Prop where
  | before (h : x.pairing.Cursors c c')
  | behind (h : Pairing.same.Cursors c c')

/-- The cursors have just passed the opening brace. -/
structure AtGate (x : Exchange) (c c' : Cursor) : Prop where
  rest_eq : c.rest = x.inside ++ x.closing :: x.behind
  rest_eq' : c'.rest = x.inside' ++ x.closing :: x.behind
  sentinel_eq : c.sentinel = c'.sentinel

/-- The cursors are where a block begins, be it this one or another. -/
def Entered (x : Exchange) (c c' : Cursor) : Prop :=
  x.Outside c c' ∨ x.AtGate c c'

/-- Outside of the block the tokens are the same. -/
theorem Outside.token_eq (h : x.Outside c c') : c.token = c'.token := by
  cases h with
  | before h => exact (h.split_of_strict id).1
  | behind h => exact (h.split_of_strict id).1

theorem Outside.next (h : x.Outside c c') (hopens : c.token.opensBlock = false) :
    x.Outside c.next c'.next := by
  have hother : ∀ {q : Prop}, c.token.opensBlock = true → q := by simp [hopens]
  cases h with
  | before h => exact .before ((h.split_of_strict id).2 hother)
  | behind h => exact .behind ((h.split_of_strict id).2 hother)

/-- Before the block, the next token leads on or through the gate. -/
theorem cursors_next_or_atGate (h : x.pairing.Cursors c c') :
    x.pairing.Cursors c.next c'.next ∨ x.AtGate c.next c'.next ∧ c.token = x.opening := by
  obtain ⟨hrest, hsentinel⟩ := h
  generalize hts : c.rest = ts at hrest
  generalize hts' : c'.rest = ts' at hrest
  cases hrest with
  | cons htoken hrest =>
    left
    refine ⟨?_, hsentinel⟩
    rw [Cursor.rest_next_of_rest hts, Cursor.rest_next_of_rest hts']
    exact hrest
  | tails =>
    right
    refine ⟨⟨Cursor.rest_next_of_rest hts, Cursor.rest_next_of_rest hts', hsentinel id⟩, ?_⟩
    exact Cursor.token_of_rest hts

theorem Outside.next_entered (h : x.Outside c c') : x.Entered c.next c'.next := by
  cases h with
  | before h => exact (cursors_next_or_atGate h).imp .before And.left
  | behind h => exact .inl (.behind ((h.split_of_strict id).2 fun _ => .inl rfl))

/-! ## Passing over blocks -/

theorem cursors_same_of_onward {d d' : Cursor} (h : c.sentinel = c'.sentinel) (hd : c.Onward d)
    (hd' : c'.Onward d') (hrest : d.rest = d'.rest) : Pairing.same.Cursors d d' := by
  have hbeside := Pairing.beside_append d.rest [] []
  rw [List.append_nil] at hbeside
  refine ⟨hrest ▸ hbeside, fun _ => ?_⟩
  show Token.endAt _ = Token.endAt _
  rw [hd.tokens_eq, hd'.tokens_eq]
  exact h

/-- From the gate to the tokens behind the block. -/
theorem reads_skipBlocks_of_atGate (h : x.AtGate c c') {bound bound' : List Token} {depth : Nat}
    (hbound : c.rest.length ≤ bound.length) (hbound' : c'.rest.length ≤ bound'.length) :
    Answers False (fun _ d _ d' => x.Outside d d') (fun e _ f _ => e = f)
      (Reading.skipBlocks bound (depth + 1) c) (Reading.skipBlocks bound' (depth + 1) c') := by
  obtain ⟨d, left, hd, hrest, hleft, heq⟩ :=
    Reading.skipBlocks_of_closing x.level_inside x.closes h.rest_eq hbound depth
  obtain ⟨d', left', hd', hrest', hleft', heq'⟩ :=
    Reading.skipBlocks_of_closing x.level_inside' x.closes h.rest_eq' hbound' depth
  rw [heq, heq']
  have hsame : Pairing.same.Cursors d d' :=
    cursors_same_of_onward h.sentinel_eq hd hd' (hrest.trans hrest'.symm)
  rw [← hrest] at hleft
  rw [← hrest'] at hleft'
  refine Answers.mono (Pairing.reads_skipBlocks (.inl rfl) hsame hleft hleft') ?_ ?_
  · exact fun _ _ _ _ hv => .behind hv.2
  · exact fun _ _ _ _ hf => hf.1

/-- Blocks are passed over together from before the block.  The induction is on the first bound, and
each bound covers the tokens left. -/
theorem reads_skipBlocks_of_before (h : x.pairing.Cursors c c') {bound bound' : List Token}
    {depth : Nat} (hbound : c.rest.length ≤ bound.length)
    (hbound' : c'.rest.length ≤ bound'.length) :
    Answers False (fun _ d _ d' => x.Outside d d') (fun e _ f _ => e = f)
      (Reading.skipBlocks bound depth c) (Reading.skipBlocks bound' depth c') := by
  have hend : ∀ {bound bound' : List Token} {depth : Nat} {c c' : Cursor},
      x.pairing.Cursors c c' → c.token.kind = .endOfInput →
      Answers False (fun _ d _ d' => x.Outside d d') (fun e _ f _ => e = f)
        (Reading.skipBlocks bound (depth + 1) c) (Reading.skipBlocks bound' (depth + 1) c') := by
    intro bound bound' depth c c' h hend
    have htoken := (Outside.before h).token_eq
    rw [Reading.skipBlocks_end hend, Reading.skipBlocks_end (htoken ▸ hend), htoken]
    exact .inr rfl
  induction bound generalizing bound' depth c c' with
  | nil =>
    cases depth with
    | zero =>
      unfold Reading.skipBlocks
      exact .before h
    | succ depth =>
      exact hend h (Cursor.kind_of_length_le_zero hbound)
  | cons b bound ih =>
    cases depth with
    | zero =>
      unfold Reading.skipBlocks
      exact .before h
    | succ depth =>
      by_cases hkind : c.token.kind = .endOfInput
      · exact hend h hkind
      · have htoken := (Outside.before h).token_eq
        have hkind' : c'.token.kind ≠ .endOfInput := htoken ▸ hkind
        obtain ⟨b', bound', rfl⟩ := Cursor.exists_bound hkind' hbound'
        have hbound := Cursor.length_next_le hkind hbound
        have hbound' := Cursor.length_next_le hkind' hbound'
        rw [Reading.skipBlocks_step hkind, Reading.skipBlocks_step hkind', ← htoken]
        rcases cursors_next_or_atGate h with hnext | ⟨hgate, hopening⟩
        · exact ih hnext hbound hbound'
        · rw [hopening, x.opens]
          exact reads_skipBlocks_of_atGate hgate hbound hbound'

theorem reads_skipBlock (h : x.Entered c c') :
    Answers False (fun _ d _ d' => x.Outside d d') (fun e _ f _ => e = f)
      (Reading.skipBlock c) (Reading.skipBlock c') := by
  rcases h with (hbefore | hbehind) | hgate
  · exact reads_skipBlocks_of_before hbefore (Nat.le_refl _) (Nat.le_refl _)
  · refine Answers.mono (Pairing.readings_skipBlock (.inl rfl) hbehind) ?_ ?_
    · exact fun _ _ _ _ hv => .behind hv.2
    · exact fun _ _ _ _ hf => hf.1
  · exact reads_skipBlocks_of_atGate hgate (Nat.le_refl _) (Nat.le_refl _)

/-! ## Walks around the block -/

/-- The machines have the same bindings and the same values printed, and their cursors stand in the
relation. -/
structure Alongside (C : Cursor → Cursor → Prop) (m m' : Machine) : Prop where
  cursors : C m.cursor m'.cursor
  scopes : m.scopes = m'.scopes
  printed : m.printed = m'.printed

/-- The outcomes have the same value and the cursors in the relation, or they are the same stop. -/
def Ended (C : Cursor → Cursor → Prop) :
    EStateM.Result Stop Machine α → EStateM.Result Stop Machine α → Prop :=
  Answers False (fun a n b n' => a = b ∧ Alongside C n n')
    (fun e n f n' => e = f ∧ Alongside (fun _ _ => True) n n')

theorem Alongside.mono {C D : Cursor → Cursor → Prop} (h : Alongside C m m')
    (hCD : ∀ c c', C c c' → D c c') : Alongside D m m' :=
  ⟨hCD _ _ h.cursors, h.scopes, h.printed⟩

theorem Ended.mono {C D : Cursor → Cursor → Prop} {r r' : EStateM.Result Stop Machine α}
    (h : Ended C r r') (hCD : ∀ c c', C c c' → D c c') : Ended D r r' :=
  Answers.mono h (fun _ _ _ _ hv => ⟨hv.1, hv.2.mono hCD⟩) (fun _ _ _ _ hf => hf)

/-- Sequences end together if their steps do. -/
theorem Ended.bind {C D : Cursor → Cursor → Prop} {y z : Walk α} {f g : α → Walk β}
    (h : Ended C (y m) (z m'))
    (hfg : ∀ a n n', y m = .ok a n → Alongside C n n' → Ended D (f a n) (g a n')) :
    Ended D ((y >>= f) m) ((z >>= g) m') := by
  refine Answers.bind_of_eq_ok h fun a n b n' hy hv => ?_
  obtain ⟨rfl, hn⟩ := hv
  exact hfg a n n' hy hn

theorem Ended.inFrame {C : Cursor → Cursor → Prop} {body body' : Walk Unit}
    (h : Ended C (body { m with scopes := m.scopes.push })
      (body' { m' with scopes := m'.scopes.push })) :
    Ended C (Walk.inFrame body m) (Walk.inFrame body' m') := by
  have hpopped : ∀ {D : Cursor → Cursor → Prop} {n n' : Machine}, Alongside D n n' →
      Alongside D { n with scopes := n.scopes.pop } { n' with scopes := n'.scopes.pop } :=
    fun hn => ⟨hn.cursors, congrArg Scopes.pop hn.scopes, hn.printed⟩
  refine Walk.inFrame_answers h ?_ ?_
  · exact fun _ _ _ _ hv => ⟨hv.1, hpopped hv.2⟩
  · exact fun _ _ _ _ hf => ⟨hf.1, hpopped hf.2⟩

theorem ended_of_before {r r' : EStateM.Result Stop Machine α} (h : x.pairing.Walked Eq r r') :
    Ended x.Outside r r' := by
  refine Answers.mono h ?_ ?_
  · exact fun _ _ _ _ hv => ⟨hv.1, .before hv.2.cursors, hv.2.scopes, hv.2.printed⟩
  · exact fun _ _ _ _ hf => ⟨hf.1, trivial, hf.2.scopes, hf.2.printed⟩

theorem ended_of_behind {r r' : EStateM.Result Stop Machine α}
    (h : Pairing.same.Walked Eq r r') : Ended x.Outside r r' := by
  refine Answers.mono h ?_ ?_
  · exact fun _ _ _ _ hv => ⟨hv.1, .behind hv.2.cursors, hv.2.scopes, hv.2.printed⟩
  · exact fun _ _ _ _ hf => ⟨hf.1, trivial, hf.2.scopes, hf.2.printed⟩

/-- What goes side by side in every pairing stays outside of the block. -/
theorem ended_of_walks {w w' : Walk α} (h : ∀ p : Pairing, p.Walks Eq w w')
    (hm : Alongside x.Outside m m') : Ended x.Outside (w m) (w' m') := by
  cases hm.cursors with
  | before hc => exact ended_of_before (h x.pairing ⟨hc, hm.scopes, hm.printed⟩)
  | behind hc => exact ended_of_behind (h Pairing.same ⟨hc, hm.scopes, hm.printed⟩)

/-- The same of what starts with a token that opens no block. -/
theorem ended_of_starts {r r' : EStateM.Result Stop Machine α}
    (h : ∀ p : Pairing, p.Starts m m' → p.Walked Eq r r') (hm : Alongside x.Outside m m')
    (hopens : m.cursor.token.opensBlock = false) : Ended x.Outside r r' := by
  have hother : ∀ {q : Prop}, m.cursor.token.opensBlock = true → q := by simp [hopens]
  cases hm.cursors with
  | before hc =>
    obtain ⟨htoken, hnext⟩ := hc.split_of_strict id
    exact ended_of_before (h x.pairing ⟨⟨hc, hm.scopes, hm.printed⟩, htoken, hnext hother⟩)
  | behind hc =>
    obtain ⟨htoken, hnext⟩ := hc.split_of_strict id
    exact ended_of_behind (h Pairing.same ⟨⟨hc, hm.scopes, hm.printed⟩, htoken, hnext hother⟩)

theorem ended_skipBlock (hm : Alongside x.Entered m m') :
    Ended x.Outside (Walk.read .skipBlock m) (Walk.read .skipBlock m') := by
  refine Walk.read_answers (reads_skipBlock hm.cursors) ?_ ?_
  · exact fun _ _ _ _ hd => ⟨rfl, hd, hm.scopes, hm.printed⟩
  · exact fun _ _ _ _ hf => ⟨hf, trivial, hm.scopes, hm.printed⟩

theorem ended_openBrace (hm : Alongside x.Outside m m') :
    Ended x.Entered (Walk.read .openBrace m) (Walk.read .openBrace m') := by
  have htoken := hm.cursors.token_eq
  have h := Reading.openBrace_apply m.cursor
  have h' := Reading.openBrace_apply m'.cursor
  rw [← htoken] at h'
  cases hopens : m.cursor.token.opensBlock with
  | true =>
    rw [hopens] at h h'
    rw [Walk.read_of_ok h, Walk.read_of_ok h']
    exact ⟨rfl, hm.cursors.next_entered, hm.scopes, hm.printed⟩
  | false =>
    rw [hopens] at h h'
    rw [Walk.read_of_error h, Walk.read_of_error h']
    exact .inr ⟨rfl, trivial, hm.scopes, hm.printed⟩

/-! ## Statements

The blocks that a statement runs are to end together, wherever the statement runs them. -/

section Blocks

open Walk (Opens InLoop)

variable {block block' : Walk Unit} {cap : Int}

theorem ended_condition (hm : Alongside x.Outside m m') :
    Ended x.Outside (Walk.condition m) (Walk.condition m') :=
  ended_of_walks (fun _ => Pairing.walks_condition) hm

/-- The keyword, the condition and the opening brace of a loop or a conditional. -/
theorem ended_opening {f g : Bool → Walk β} {C : Cursor → Cursor → Prop}
    (hm : Alongside x.Outside m m') (hopens : m.cursor.token.opensBlock = false)
    (hfg : ∀ holds n n', Alongside x.Entered n n' → Ended C (f holds n) (g holds n')) :
    Ended C
      ((Walk.condition >>= fun holds => Walk.read .openBrace >>= fun _ => f holds)
        { m with cursor := m.cursor.next })
      ((Walk.condition >>= fun holds => Walk.read .openBrace >>= fun _ => g holds)
        { m' with cursor := m'.cursor.next }) := by
  have hnext : Alongside x.Outside { m with cursor := m.cursor.next }
      { m' with cursor := m'.cursor.next } :=
    ⟨hm.cursors.next hopens, hm.scopes, hm.printed⟩
  refine (ended_condition hnext).bind fun holds n n' _ hn => ?_
  exact (ended_openBrace hn).bind fun _ k k' _ hk => hfg holds k k' hk

theorem ended_head (hm : Alongside x.Outside m m')
    (hopens : m.cursor.token.opensBlock = false) :
    Ended x.Entered (Walk.head m) (Walk.head m') :=
  ended_opening hm hopens fun _ _ _ hn => ⟨rfl, hn⟩

theorem ended_test (hm : Alongside x.Outside m m')
    (hopens : m.cursor.token.opensBlock = false) :
    Ended x.Entered (Walk.test m) (Walk.test m') :=
  ended_opening hm hopens fun _ _ _ hn => ⟨rfl, hn.cursors, hn.scopes, hn.printed⟩

/-- A loop stays outside of the block.  Only its body may be the block itself, and then it is passed
over. -/
theorem ended_lasting (hm : Alongside x.Outside m m') (hkind : m.cursor.token.kind = .keyword)
    (htext : m.cursor.token.text = "while") (hopens : m.cursor.token.opensBlock = false)
    (hblock : ∀ o o', Opens block cap m o → Alongside x.Entered o o' →
      Ended x.Outside (block o) (block' o'))
    {bodyStart bodyStart' : Cursor} (hbody : x.Entered bodyStart bodyStart') {left : Nat}
    {holds : Bool} {e e' : Machine} (hin : InLoop block cap m bodyStart left holds e)
    (he : Alongside (fun _ _ => True) e e') :
    Ended x.Outside (Walk.lasting block cap m bodyStart left holds e)
      (Walk.lasting block' cap m' bodyStart' left holds e') := by
  have hend : ∀ {left : Nat} {e e' : Machine}, Alongside (fun _ _ => True) e e' →
      Ended x.Outside (Walk.lasting block cap m bodyStart left false e)
        (Walk.lasting block' cap m' bodyStart' left false e') := by
    intro left e e' he
    rw [Walk.lasting_false, Walk.lasting_false]
    exact ended_skipBlock ⟨hbody, he.scopes, he.printed⟩
  induction left generalizing holds e e' with
  | zero =>
    cases holds with
    | false => exact hend he
    | true =>
      rw [Walk.lasting_zero, Walk.lasting_zero, hm.cursors.token_eq]
      exact .inr ⟨rfl, he⟩
  | succ left ih =>
    cases holds with
    | false => exact hend he
    | true =>
      rw [Walk.lasting_succ, Walk.lasting_succ]
      have hround : Ended x.Outside (Walk.inFrame (do Walk.moveTo bodyStart; block) e)
          (Walk.inFrame (do Walk.moveTo bodyStart'; block') e') := by
        refine Ended.inFrame (hblock _ _ (.round hkind htext hin) ?_)
        exact ⟨hbody, congrArg Scopes.push he.scopes, he.printed⟩
      have hturn : Ended x.Outside (Walk.turn block m.cursor.next bodyStart e)
          (Walk.turn block' m'.cursor.next bodyStart' e') := by
        refine hround.bind fun _ n n' _ hn => ?_
        exact ended_condition ⟨hm.cursors.next hopens, hn.scopes, hn.printed⟩
      refine hturn.bind fun holds n n' hr hn => ?_
      exact ih (hin.next hr) (hn.mono fun _ _ _ => trivial)

theorem ended_branch {e e' : Machine}
    (h : Ended x.Outside (block { e with scopes := e.scopes.push })
      (block' { e' with scopes := e'.scopes.push })) :
    Ended x.Outside (Walk.branch block e) (Walk.branch block' e') := by
  refine Ended.inFrame (h.bind fun _ n n' _ hn => ?_)
  exact ended_of_walks (fun _ => Pairing.walks_read Pairing.readings_closeBrace) hn

theorem ended_alternative {body body' : Walk Unit} {e e' : Machine}
    (he : Alongside x.Outside e e')
    (hbody : e.cursor.token.is .keyword (some "else") = true → ∀ n n',
      Walk.read .openBrace { e with cursor := e.cursor.next } = .ok () n →
      Alongside x.Entered n n' → Ended x.Outside (body n) (body' n')) :
    Ended x.Outside (Walk.alternative body e) (Walk.alternative body' e') := by
  have htoken := he.cursors.token_eq
  cases helse : e.cursor.token.is .keyword (some "else") with
  | false =>
    rw [Walk.alternative_without helse, Walk.alternative_without (htoken ▸ helse)]
    exact ⟨rfl, he⟩
  | true =>
    rw [Walk.alternative_else helse, Walk.alternative_else (htoken ▸ helse)]
    have hopens : e.cursor.token.opensBlock = false := (Walk.plain_of_keyword helse).not_opening
    have hnext : Alongside x.Outside { e with cursor := e.cursor.next }
        { e' with cursor := e'.cursor.next } :=
      ⟨he.cursors.next hopens, he.scopes, he.printed⟩
    exact (ended_openBrace hnext).bind fun _ n n' hopen hn => hbody helse n n' hopen hn

/-- A conditional stays outside of the block, which may be one of its own if it is passed over. -/
theorem ended_conditional (hm : Alongside x.Outside m m')
    (hkind : m.cursor.token.kind = .keyword) (htext : m.cursor.token.text = "if")
    (hopens : m.cursor.token.opensBlock = false)
    (hblock : ∀ o o', Opens block cap m o → Alongside x.Entered o o' →
      Ended x.Outside (block o) (block' o')) :
    Ended x.Outside (Walk.conditional block m) (Walk.conditional block' m') := by
  have hbranch : ∀ {e e' : Machine}, Alongside x.Entered e e' →
      Opens block cap m { e with scopes := e.scopes.push } →
      Ended x.Outside (Walk.branch block e) (Walk.branch block' e') := by
    intro e e' he ho
    refine ended_branch (hblock _ _ ho ?_)
    exact ⟨he.cursors, congrArg Scopes.push he.scopes, he.printed⟩
  rw [Walk.conditional_eq, Walk.conditional_eq]
  refine (ended_test hm hopens).bind fun holds e e' htest he => ?_
  cases holds with
  | true =>
    refine (hbranch he (.branch hkind htext (.consequent htest))).bind fun _ n n' _ hn => ?_
    exact ended_alternative hn fun _ _ _ _ hk => ended_skipBlock hk
  | false =>
    refine (ended_skipBlock he).bind fun _ e₁ e₁' hskip he₁ => ?_
    refine ended_alternative he₁ fun helse n n' hopen hn => ?_
    obtain ⟨hbrace, rfl⟩ := Walk.read_openBrace_ok_iff.mp hopen
    exact hbranch hn (.branch hkind htext (.alternative htest hskip helse hbrace))

/-- A statement stays outside of the block, but it may be the opening brace itself, as a stray
token. -/
theorem ended_statementWith (hm : Alongside x.Outside m m')
    (hblock : ∀ o o', Opens block cap m o → Alongside x.Entered o o' →
      Ended x.Outside (block o) (block' o')) :
    Ended x.Entered (Walk.statementWith block cap m) (Walk.statementWith block' cap m') := by
  have htoken := hm.cursors.token_eq
  have hplain : m.cursor.token.kind ≠ .punctuation → m.cursor.token.opensBlock = false := by
    intro hkind
    simp [Token.opensBlock, Token.is, hkind]
  have houtside : ∀ {r r' : EStateM.Result Stop Machine Unit}, Ended x.Outside r r' →
      Ended x.Entered r r' := fun h => h.mono fun _ _ => .inl
  have hdispatch := Walk.dispatch block cap m
  generalize Walk.statementWith block cap m = r at hdispatch
  cases hdispatch with
  | declaration hkind htext =>
    rw [Walk.statementWith_declaration (htoken ▸ hkind) (htoken ▸ htext)]
    exact houtside (ended_of_starts (fun _ => Pairing.walked_declaration) hm
      (hplain (by simp [hkind])))
  | printing hkind htext =>
    rw [Walk.statementWith_printing (htoken ▸ hkind) (htoken ▸ htext)]
    exact houtside (ended_of_starts (fun _ => Pairing.walked_printing) hm
      (hplain (by simp [hkind])))
  | loop hkind htext =>
    rw [Walk.statementWith_loop (htoken ▸ hkind) (htoken ▸ htext), Walk.loop_eq, Walk.loop_eq]
    have hopens := hplain (by simp [hkind])
    refine houtside ((ended_head hm hopens).bind fun holds e e' hhead he => ?_)
    exact ended_lasting hm hkind htext hopens hblock he.cursors (.first hhead rfl)
      (he.mono fun _ _ _ => trivial)
  | conditional hkind htext =>
    rw [Walk.statementWith_conditional (htoken ▸ hkind) (htoken ▸ htext)]
    exact houtside (ended_conditional hm hkind htext (hplain (by simp [hkind])) hblock)
  | unhandled hkind htext =>
    rw [Walk.statementWith_unhandled (htoken ▸ hkind) (htoken ▸ htext), ← htoken]
    exact .inr ⟨rfl, trivial, hm.scopes, hm.printed⟩
  | assignment hkind =>
    rw [Walk.statementWith_assignment (htoken ▸ hkind)]
    exact houtside (ended_of_starts (fun _ h => Pairing.walked_assignment h hkind) hm
      (hplain (by simp [hkind])))
  | stray hkeyword hidentifier =>
    rw [Walk.statementWith_stray (htoken ▸ hkeyword) (htoken ▸ hidentifier)]
    exact ⟨rfl, hm.cursors.next_entered, hm.scopes, hm.printed⟩

end Blocks

end Exchange

/-! ## Runs -/

/-- The run from the spot comes to the cursor: it stands there before a statement or at the end of a
row of statements, or goes into a block there. -/
inductive Spot.Visits (cap : Int) (s : Spot) : Cursor → Prop where
  | spot {t : Spot} (h : Reaches cap s t) : Visits cap s t.machine.cursor
  | block {t : Spot} {o : Machine} (h : Reaches cap s t) (hactive : t.Active)
      (ho : Walk.Opens (Walk.block cap t.nesting) cap t.machine o) : Visits cap s o.cursor

theorem Spot.Visits.of_reaches {cap : Int} {s t : Spot} {c : Cursor} (h : Visits cap t c)
    (hreaches : Reaches cap s t) : Visits cap s c := by
  cases h with
  | spot h => exact .spot (hreaches.trans h)
  | block h hactive ho => exact .block (hreaches.trans h) hactive ho

/-- A statement that ends without running a block leads on to the next spot only. -/
theorem Spot.Visits.of_statement {cap : Int} {inner : Bool} {nesting : Nat} {m m' : Machine}
    {c : Cursor} (h : Visits cap ⟨inner, nesting, m⟩ c)
    (hstatement : Walk.statementWith (Walk.block cap nesting) cap m = .ok () m')
    (hnone : ∀ o, ¬ Walk.Opens (Walk.block cap nesting) cap m o) :
    c = m.cursor ∨ Visits cap ⟨inner, nesting, m'⟩ c := by
  have hnext : ∀ {s : Spot}, Next cap ⟨inner, nesting, m⟩ s → s = ⟨inner, nesting, m'⟩ := by
    intro s hs
    cases hs with
    | after _ h =>
      cases h.symm.trans hstatement
      rfl
    | into _ ho => exact absurd ho (hnone _)
  cases h with
  | spot hreaches =>
    rcases hreaches.cases_head with rfl | ⟨s, hs, hrest⟩
    · exact .inl rfl
    · cases hnext hs
      exact .inr (.spot hrest)
  | block hreaches hactive ho =>
    rcases hreaches.cases_head with rfl | ⟨s, hs, hrest⟩
    · exact absurd ho (hnone _)
    · cases hnext hs
      exact .inr (.block hrest hactive ho)

theorem Spot.Visits.onward {cap : Int} {s : Spot} {c : Cursor} (h : Visits cap s c) :
    s.machine.cursor.Onward c := by
  cases h with
  | spot h => exact onward_of_reaches h
  | block h hactive ho =>
    exact (onward_of_reaches h).trans ((Cursor.onward_next _).trans (Walk.onward_next_of_opens ho))

namespace Exchange

open Spot (Active Reaches Visits outcome)
open Walk (Opens block statementWith)

variable {x : Exchange} {cap : Int} {inner : Bool} {nesting : Nat} {m m' : Machine}

/-- The run from the spot never comes to the gate of the block. -/
def Shuns (x : Exchange) (cap : Int) (s : Spot) : Prop :=
  ∀ c, Visits cap s c → c.rest ≠ x.inside ++ x.closing :: x.behind

theorem Shuns.of_reaches {s t : Spot} (h : x.Shuns cap s) (hreaches : Reaches cap s t) :
    x.Shuns cap t :=
  fun c hc => h c (hc.of_reaches hreaches)

theorem Shuns.outside {s : Spot} {c c' : Cursor} (h : x.Shuns cap s) (hc : Visits cap s c)
    (hentered : x.Entered c c') : x.Outside c c' := by
  rcases hentered with houtside | hgate
  · exact houtside
  · exact absurd hgate.rest_eq (h c hc)

/-- If inner blocks end together, so do rows of statements that never enter the block. -/
theorem ended_outcome_of_blocks
    (hblocks : ∀ inner m, Active ⟨inner, nesting, m⟩ → x.Shuns cap ⟨inner, nesting, m⟩ →
      ∀ o o', Opens (block cap nesting) cap m o → Alongside x.Entered o o' →
        Ended x.Outside (block cap nesting o) (block cap nesting o'))
    (hm : Alongside x.Outside m m') (hshuns : x.Shuns cap ⟨inner, nesting, m⟩) :
    Ended x.Outside (outcome cap ⟨inner, nesting, m⟩) (outcome cap ⟨inner, nesting, m'⟩) := by
  -- The induction goes along the row, whose statements each take a token.
  induction hn : m.cursor.rest.length using Nat.strongRecOn generalizing m m' with
  | _ n ih =>
    subst hn
    have htoken := hm.cursors.token_eq
    have hsame : Active ⟨inner, nesting, m'⟩ ↔ Active ⟨inner, nesting, m⟩ := by
      simp only [Spot.Active, Walk.Pending, htoken]
    by_cases hactive : Active ⟨inner, nesting, m⟩
    · have hactive' := hsame.mpr hactive
      have hstatement := ended_statementWith hm (hblocks inner m hactive hshuns)
      cases hr : statementWith (block cap nesting) cap m with
      | error stop k =>
        rw [hr] at hstatement
        cases hr' : statementWith (block cap nesting) cap m' with
        | ok _ k' =>
          rw [hr'] at hstatement
          exact hstatement.elim
        | error stop' k' =>
          rw [hr'] at hstatement
          rw [Spot.outcome_of_error hactive hr, Spot.outcome_of_error hactive' hr']
          exact hstatement
      | ok _ k =>
        rw [hr] at hstatement
        obtain ⟨_, k', hr', -, hk⟩ := hstatement.ok_left
        rw [Spot.outcome_of_ok hactive hr, Spot.outcome_of_ok hactive' hr']
        have hnext : Reaches cap ⟨inner, nesting, m⟩ ⟨inner, nesting, k⟩ :=
          .single (.after hactive hr)
        have houtside : Alongside x.Outside k k' :=
          ⟨hshuns.outside (.spot hnext) hk.cursors, hk.scopes, hk.printed⟩
        exact ih _ (Walk.length_rest_of_statementWith hactive.1 hr) houtside
          (hshuns.of_reaches hnext) rfl
    · have hactive' := mt hsame.mp hactive
      unfold Spot.outcome
      rw [Spot.row_of_not_active hactive (Nat.le_refl _),
        Spot.row_of_not_active hactive' (Nat.le_refl _), ← htoken]
      split
      · exact .inr ⟨rfl, trivial, hm.scopes, hm.printed⟩
      · exact ⟨rfl, hm⟩

/-- Rows of statements that never enter the block end together. -/
theorem ended_outcome (hm : Alongside x.Outside m m')
    (hshuns : x.Shuns cap ⟨inner, nesting, m⟩) :
    Ended x.Outside (outcome cap ⟨inner, nesting, m⟩) (outcome cap ⟨inner, nesting, m'⟩) := by
  induction nesting generalizing inner m m' with
  | zero =>
    refine ended_outcome_of_blocks (fun inner m hactive hshuns o o' ho hentered => ?_) hm hshuns
    have houtside := hshuns.outside (.block .refl hactive ho) hentered.cursors
    show Ended x.Outside (.error (.fault (.ofPlace o.cursor.token.place .nestingTooDeep)) o)
      (.error (.fault (.ofPlace o'.cursor.token.place .nestingTooDeep)) o')
    rw [houtside.token_eq]
    exact .inr ⟨rfl, trivial, hentered.scopes, hentered.printed⟩
  | succ nesting ih =>
    refine ended_outcome_of_blocks (fun inner m hactive hshuns o o' ho hentered => ?_) hm hshuns
    have houtside := hshuns.outside (.block .refl hactive ho) hentered.cursors
    have hinto : Reaches cap ⟨inner, nesting + 1, m⟩ ⟨true, nesting, o⟩ :=
      .single (.into hactive ho)
    exact ih ⟨houtside, hentered.scopes, hentered.printed⟩ (hshuns.of_reaches hinto)

end Exchange

namespace Session

/-- A block that a run never enters may hold anything.  If no statement, no end of a row of
statements and no block is ever met at a token inside the block or at its closing brace, any other
balanced inside without an end of input shows the host the same: the printed values, the global
bindings and the result. -/
theorem observe_runTokens_of_not_visited {front inside inside' back : List Token}
    {opening closing : Token} (hopens : opening.opensBlock = true)
    (hcloses : closing.closesBlock = true) (hinside : Token.level 0 inside = some 0)
    (hinside' : Token.level 0 inside' = some 0) (limits : Limits) (file : String)
    (session : Session)
    (hinert : ∀ c, Spot.Visits limits.iterations
      (session.start limits (front ++ opening :: (inside ++ closing :: back)) file) c →
      c.position ≤ front.length ∨ front.length + 1 + inside.length < c.position) :
    observe id (runTokens limits (front ++ opening :: (inside ++ closing :: back)) file session) =
      observe id
        (runTokens limits (front ++ opening :: (inside' ++ closing :: back)) file session) := by
  let x : Exchange :=
    ⟨opening, inside, inside', closing, back, hopens, hcloses, hinside, hinside'⟩
  have hbegin : Exchange.Alongside x.Outside
      ((session.load (front ++ opening :: (inside ++ closing :: back))).started file)
      ((session.load (front ++ opening :: (inside' ++ closing :: back))).started file) := by
    refine ⟨.before ⟨Pairing.beside_append front _ _, fun _ => ?_⟩, rfl, rfl⟩
    have hlast : ∀ inside : List Token,
        (front ++ opening :: (inside ++ closing :: back)).getLast? =
          (closing :: back).getLast? := by
      intro inside
      simp [List.getLast?_cons]
    exact congrArg (fun last => Token.endAt (last.elim {} Token.place))
      ((hlast inside).trans (hlast inside').symm)
  have hshuns : x.Shuns limits.iterations
      (session.start limits (front ++ opening :: (inside ++ closing :: back)) file) := by
    intro c hc hrest
    have hposition := c.position_add_length_rest
    have htokens : c.tokens = front ++ opening :: (inside ++ closing :: back) :=
      hc.onward.tokens_eq
    rw [hrest, htokens] at hposition
    simp only [List.length_append, List.length_cons, x] at hposition
    have hvisited := hinert c hc
    omega
  rw [observe_runTokens, observe_runTokens]
  refine observe_execute_eq (Answers.mono (Exchange.ended_outcome hbegin hshuns) ?_ ?_)
  · exact fun _ _ _ _ hv => ⟨hv.2.printed, hv.2.scopes⟩
  · exact fun _ _ _ _ hf => ⟨hf.1, hf.2.printed, hf.2.scopes⟩

/-- The tokens of `if "a" == "b"`. -/
def declining : List Token :=
  [⟨.keyword, "if", ⟨1, 1⟩⟩, ⟨.string, "a", ⟨1, 4⟩⟩, ⟨.operator, "==", ⟨1, 8⟩⟩,
    ⟨.string, "b", ⟨1, 11⟩⟩]

/-- The tokens of `print("c")` and the end of input. -/
def printingC : List Token :=
  [⟨.keyword, "print", ⟨2, 1⟩⟩, ⟨.punctuation, "(", ⟨2, 6⟩⟩, ⟨.string, "c", ⟨2, 7⟩⟩,
    ⟨.punctuation, ")", ⟨2, 10⟩⟩, .endAt ⟨2, 11⟩]

/-- A conditional that declines its block, which is empty, and the rest of the fragment. -/
def declined : List Token :=
  declining ++ ⟨.punctuation, "\x7b", ⟨1, 15⟩⟩ ::
    ([] ++ ⟨.punctuation, "\x7d", ⟨1, 17⟩⟩ :: printingC)

theorem visits_declined {c : Cursor} (h : Spot.Visits 1 (start ⟨1, 1⟩ declined "f" {}) c) :
    c.position ≤ 4 ∨ 5 < c.position := by
  have hstatement : Walk.statementWith (Walk.block 1 1) 1 ((load {} declined).started "f") =
      .ok () _ := rfl
  have hnone : ∀ o, ¬ Walk.Opens (Walk.block 1 1) 1 ((load {} declined).started "f") o := by
    intro o ho
    cases ho with
    | round _ htext => exact absurd htext (by decide)
    | branch _ _ henters =>
      cases henters with
      | consequent htest => cases htest
      | alternative htest hskip helse =>
        cases htest
        cases hskip
        cases helse
  rcases h.of_statement hstatement hnone with rfl | hafter
  · exact .inl (by decide)
  · -- The conditional ends behind its block, and the run does not go back.
    exact .inr (Nat.lt_of_lt_of_le (by decide) hafter.onward.position_le)

/-- The empty block, which the conditional declines, exchanged for a keyword that starts no
statement, an undefined name and a block inside the block. -/
theorem observe_runTokens_declined :
    (∀ c, Spot.Visits 1 (start ⟨1, 1⟩ declined "f" {}) c → c.position ≤ 4 ∨ 5 < c.position) ∧
      observe id (runTokens ⟨1, 1⟩ declined "f" {}) =
        observe id (runTokens ⟨1, 1⟩ (declining ++ ⟨.punctuation, "\x7b", ⟨1, 15⟩⟩ ::
          ([⟨.keyword, "func", ⟨1, 17⟩⟩, ⟨.identifier, "x", ⟨1, 22⟩⟩,
            ⟨.punctuation, "\x7b", ⟨1, 24⟩⟩, ⟨.punctuation, "\x7d", ⟨1, 26⟩⟩] ++
            ⟨.punctuation, "\x7d", ⟨1, 17⟩⟩ :: printingC)) "f" {}) ∧
      (observe id (runTokens ⟨1, 1⟩ declined "f" {})).printed = #[.str "c"] := by
  refine ⟨fun c => visits_declined, ?_, by decide +kernel⟩
  exact observe_runTokens_of_not_visited (by decide) (by decide) (by decide) (by decide) ⟨1, 1⟩ "f"
    {} fun c => visits_declined

end Session

end TokenWalk
