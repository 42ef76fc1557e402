import TokenWalk.Proofs.Composition
import TokenWalk.Proofs.Halting

/-!
# Runs are local

What stands before the cursor does not matter.  A statement, a block, a condition or an expression
that starts at index `p` of a list of tokens does what it does at the start of the tokens from `p`
on, with a cursor that is `p` tokens further on in the end.

The two runs are set side by side by the pairing `same`: they read the same tokens, and past the
last one the same end of input, because an end of a list that is not empty has its last token
(`cursors_ofIndex`).  What goes side by side and never back is shifted (`shifted_of_walked`).  Loops
do go back, but only to their own condition and their own body (`onward_next_of_rewinds`).
-/

namespace TokenWalk

variable {α : Type}

/-- The session about to run the tokens from index `p` on. -/
def Session.loadAt (session : Session) (ts : List Token) (p : Nat) : Machine :=
  { session with cursor := .ofIndex ts p }

/-- The first machine stands `p` tokens further on in the list `ts` than the second in the list
without its first `p` tokens.  The bindings and the values printed are the same. -/
structure Machine.Ahead (ts : List Token) (p : Nat) (m n : Machine) : Prop where
  tokens_eq : m.cursor.tokens = ts
  tokens_eq' : n.cursor.tokens = ts.drop p
  position_eq : m.cursor.position = n.cursor.position + p
  scopes : m.scopes = n.scopes
  printed : m.printed = n.printed

namespace Walk

/-- The outcomes are the same value or the same stop, with the first machine ahead. -/
def Shifted (ts : List Token) (p : Nat) :
    EStateM.Result Stop Machine α → EStateM.Result Stop Machine α → Prop
  | .ok a m, .ok b n => a = b ∧ m.Ahead ts p n
  | .error e m, .error f n => e = f ∧ m.Ahead ts p n
  | _, _ => False

variable {session : Session} {ts : List Token} {p : Nat}

/-! ## The two runs -/

/-- At index `p` and at the start of the tokens from there on, the same tokens are ahead, and the
same end of input behind them. -/
theorem cursors_ofIndex (hp : p < ts.length) :
    Pairing.same.Cursors (.ofIndex ts p) (.start (ts.drop p)) := by
  refine Pairing.cursors_same rfl ?_
  show ts.getLast? = (ts.drop p).getLast?
  rw [List.getLast?_drop, if_neg (by omega)]

theorem machines_loadAt (hp : p < ts.length) :
    Pairing.same.Machines (session.loadAt ts p) (session.load (ts.drop p)) :=
  ⟨cursors_ofIndex hp, rfl, rfl⟩

theorem starts_loadAt (hp : p < ts.length) :
    Pairing.same.Starts (session.loadAt ts p) (session.load (ts.drop p)) := by
  have hcursors := cursors_ofIndex hp
  obtain ⟨htoken, hnext⟩ := hcursors.split_of_strict id
  exact ⟨machines_loadAt hp, htoken, hnext fun _ => .inl rfl⟩

/-- Machines side by side that have come from index `p` and from the start are one ahead of the
other. -/
theorem ahead_of_machines {m n : Machine} (h : Pairing.same.Machines m n)
    (hm : (Cursor.ofIndex ts p).Onward m.cursor) (hn : (Cursor.start (ts.drop p)).Onward n.cursor)
    (hp : p < ts.length) : m.Ahead ts p n := by
  have hlength := h.cursors.length_rest rfl rfl
  have htokens : m.cursor.tokens = ts := hm.tokens_eq
  have htokens' : n.cursor.tokens = ts.drop p := hn.tokens_eq
  refine ⟨htokens, htokens', ?_, h.scopes, h.printed⟩
  have hsum := m.cursor.position_add_length_rest
  have hsum' := n.cursor.position_add_length_rest
  rw [htokens] at hsum
  rw [htokens', List.length_drop] at hsum'
  omega

/-- A walk that goes side by side with itself from the two starts, and never back, is shifted. -/
theorem shifted_of_walked {w : Walk α} (hp : p < ts.length) (hforward : Forward w)
    (h : Pairing.same.Walked Eq (w (session.loadAt ts p)) (w (session.load (ts.drop p)))) :
    Shifted ts p (w (session.loadAt ts p)) (w (session.load (ts.drop p))) := by
  have hfar := hforward _ (session.loadAt ts p) (.refl _)
  have hnear := hforward _ (session.load (ts.drop p)) (.refl _)
  cases hr : w (session.loadAt ts p) with
  | ok a m =>
    rw [hr] at h hfar
    obtain ⟨b, n, hr', hab, hmachines⟩ := Answers.ok_left h
    rw [hr'] at hnear ⊢
    exact ⟨hab, ahead_of_machines hmachines hfar hnear hp⟩
  | error e m =>
    rw [hr] at h hfar
    cases hr' : w (session.load (ts.drop p)) with
    | ok b n =>
      rw [hr'] at h
      exact h.elim
    | error f n =>
      rw [hr'] at h hnear
      obtain ⟨hef, hmachines⟩ := Or.resolve_left h id
      exact ⟨hef, ahead_of_machines hmachines hfar hnear hp⟩

/-! ## Going back -/

/-- The loop under the cursor puts the cursor back there: to its body for a round, to its condition
behind a round, or to its body to pass over it. -/
inductive Rewinds (block : Walk Unit) (cap : Int) (m : Machine) : Cursor → Prop where
  | round {bodyStart : Cursor} {left : Nat} {e : Machine} (hkind : m.cursor.token.kind = .keyword)
      (htext : m.cursor.token.text = "while")
      (h : InLoop block cap m bodyStart (left + 1) true e) : Rewinds block cap m bodyStart
  | check {bodyStart : Cursor} {left : Nat} {e e' : Machine}
      (hkind : m.cursor.token.kind = .keyword) (htext : m.cursor.token.text = "while")
      (h : InLoop block cap m bodyStart (left + 1) true e)
      (hround : inFrame (do moveTo bodyStart; block) e = .ok () e') :
      Rewinds block cap m m.cursor.next
  | leave {bodyStart : Cursor} {left : Nat} {e : Machine} (hkind : m.cursor.token.kind = .keyword)
      (htext : m.cursor.token.text = "while") (h : InLoop block cap m bodyStart left false e) :
      Rewinds block cap m bodyStart

/-- A loop does not go back to before its condition. -/
theorem onward_next_of_rewinds {block : Walk Unit} {cap : Int} {m : Machine} {c : Cursor}
    (h : Rewinds block cap m c) : m.cursor.next.Onward c := by
  cases h with
  | round _ _ hin => exact onward_next_of_inLoop hin
  | check => exact .refl _
  | leave _ _ hin => exact onward_next_of_inLoop hin

/-- **Runs are local.**  A statement, a block, a condition or an expression at index `p` of a list
of tokens, in any session and under any limits, gives the same value or the same stop as at the start
of the tokens from `p` on.  It leaves the same bindings and the same printed values, and its cursor
is `p` tokens further on, also after a stop.  No loop on its way, however deep inside, puts the
cursor back to before `p` or past the last token. -/
theorem run_shifted (limits : Limits) (session : Session) {ts : List Token} {p : Nat}
    (hp : p < ts.length) :
    Shifted ts p (statement limits (session.loadAt ts p))
        (statement limits (session.load (ts.drop p))) ∧
      Shifted ts p (block limits.iterations limits.nesting (session.loadAt ts p))
        (block limits.iterations limits.nesting (session.load (ts.drop p))) ∧
      Shifted ts p (condition (session.loadAt ts p)) (condition (session.load (ts.drop p))) ∧
      Shifted ts p (expression (session.loadAt ts p)) (expression (session.load (ts.drop p))) ∧
      ∀ (inner : Bool) (nesting : Nat) (t : Spot) (c : Cursor),
        Spot.Reaches limits.iterations ⟨inner, nesting, session.loadAt ts p⟩ t →
        Rewinds (block limits.iterations t.nesting) limits.iterations t.machine c →
          c.tokens = ts ∧ p ≤ c.position ∧ c.position ≤ ts.length := by
  have hblock := forward_block limits.iterations limits.nesting
  refine ⟨?_, ?_, ?_, ?_, ?_⟩
  · apply shifted_of_walked hp (takes_statementWith hblock limits.iterations).forward
    exact Pairing.walked_statement (.inl rfl) limits (starts_loadAt hp)
  · apply shifted_of_walked hp hblock
    exact Pairing.walks_block (.inl rfl) _ _ (machines_loadAt hp)
  · apply shifted_of_walked hp forward_condition
    exact Pairing.walks_condition (machines_loadAt hp)
  · apply shifted_of_walked hp forward_expression
    exact Pairing.walks_expression (machines_loadAt hp)
  · intro inner nesting t c hreaches hrewinds
    have hcourse := Spot.onward_of_reaches hreaches
    have honward : (Cursor.ofIndex ts p).Onward c :=
      hcourse.trans (t.machine.cursor.onward_next.trans (onward_next_of_rewinds hrewinds))
    have htokens : c.tokens = ts := honward.tokens_eq
    have hposition := honward.position_le
    rw [Cursor.position_ofIndex (by omega)] at hposition
    have hsum := c.position_add_length_rest
    rw [htokens] at hsum
    exact ⟨htokens, hposition, by omega⟩

/-- The tokens of `; while 1 == 1 { }`. -/
def spinning : List Token :=
  [⟨.punctuation, ";", ⟨1, 1⟩⟩, ⟨.keyword, "while", ⟨1, 3⟩⟩, ⟨.integer, "1", ⟨1, 9⟩⟩,
    ⟨.operator, "==", ⟨1, 11⟩⟩, ⟨.integer, "1", ⟨1, 14⟩⟩, ⟨.punctuation, "\x7b", ⟨1, 16⟩⟩,
    ⟨.punctuation, "\x7d", ⟨1, 18⟩⟩, .endAt ⟨1, 19⟩]

/-- The loop stops at its limit behind its condition, with and without the semicolon before it, and
goes back to its body on the way. -/
theorem run_shifted_spinning :
    1 < spinning.length ∧
      Shifted spinning 1 (statement ⟨2, 1⟩ (Session.loadAt {} spinning 1))
        (statement ⟨2, 1⟩ (Session.load {} (spinning.drop 1))) ∧
      (∃ m, statement ⟨2, 1⟩ (Session.loadAt {} spinning 1) =
        .error (.fault (.ofPlace ⟨1, 3⟩ (.loopLimit 2))) m ∧ m.cursor.position = 5) ∧
      ∃ c, Rewinds (block 2 1) 2 (Session.loadAt {} spinning 1) c ∧ 1 ≤ c.position := by
  have hp : 1 < spinning.length := by decide
  obtain ⟨hstatement, -, -, -, hrewinds⟩ := run_shifted ⟨2, 1⟩ {} hp
  have hhead : head (Session.loadAt {} spinning 1) = .ok true _ := rfl
  have hround : Rewinds (block 2 1) 2 (Session.loadAt {} spinning 1) _ :=
    .round rfl rfl (.first hhead rfl)
  obtain ⟨-, hposition, -⟩ := hrewinds false 1 _ _ .refl hround
  exact ⟨hp, hstatement, ⟨_, rfl, rfl⟩, _, hround, hposition⟩

end Walk

end TokenWalk
