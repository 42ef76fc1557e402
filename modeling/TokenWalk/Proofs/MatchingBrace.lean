import TokenWalk.Proofs.Braces
import TokenWalk.Session

/-!
# The matching brace

The brace that closes a block is found by counting: it stands where the tokens from the start of the
block have, for the first time, one closing brace more than opening ones.  `ClosesAt` says so of an
index, without a scan and for any list of tokens.  There are three groups.

* The counts.  `level_eq_some_iff` reads the level of a row of tokens off the counts of its fronts.
* The first place.  One token changes a count by one at most, so the closing braces cannot come to
  be two more without being one more before (`closings_take_le`).  `ClosesAt.exists_split` finds the
  brace from the counts, and `closesAt_of_split` the counts from the brace.
* The end of input.  A block that has no such brace is passed over up to the first end of input
  (`eq_ofIndex_of_skipBlock_error`).
-/

namespace TokenWalk

namespace Token

/-! ## Counts -/

/-- The number of opening braces among the tokens. -/
def openings (ts : List Token) : Nat :=
  ts.countP opensBlock

/-- The number of closing braces among the tokens. -/
def closings (ts : List Token) : Nat :=
  ts.countP closesBlock

theorem openings_cons (t : Token) (ts : List Token) :
    openings (t :: ts) = openings ts + if t.opensBlock then 1 else 0 :=
  List.countP_cons

theorem closings_cons (t : Token) (ts : List Token) :
    closings (t :: ts) = closings ts + if t.closesBlock then 1 else 0 :=
  List.countP_cons

theorem openings_concat (ts : List Token) (t : Token) :
    openings (ts ++ [t]) = openings ts + if t.opensBlock then 1 else 0 := by
  rw [openings, List.countP_append, ← openings, List.countP_singleton]

theorem closings_concat (ts : List Token) (t : Token) :
    closings (ts ++ [t]) = closings ts + if t.closesBlock then 1 else 0 := by
  rw [closings, List.countP_append, ← closings, List.countP_singleton]

/-- The tokens lead from `depth` open blocks to `depth'` open ones, by their counts: they hold no
end of input, and no front of them closes more than is open. -/
structure Leads (depth depth' : Nat) (ts : List Token) : Prop where
  not_end : ∀ t ∈ ts, t.kind ≠ .endOfInput
  fronts : ∀ front, front <+: ts → closings front ≤ depth + openings front
  total : depth' + closings ts = depth + openings ts

/-- The first token changes the number of open blocks by its own count. -/
theorem leads_cons_iff {depth depth₁ depth' : Nat} {t : Token} {ts : List Token}
    (hend : t.kind ≠ .endOfInput)
    (hdepth : depth + (if t.opensBlock then 1 else 0) = depth₁ + if t.closesBlock then 1 else 0) :
    Leads depth depth' (t :: ts) ↔ Leads depth₁ depth' ts := by
  constructor
  · intro h
    refine ⟨fun u hu => h.not_end u (List.mem_cons_of_mem t hu), fun front hfront => ?_, ?_⟩
    · have hcounts := h.fronts (t :: front) (List.cons_prefix_cons.mpr ⟨rfl, hfront⟩)
      rw [openings_cons, closings_cons] at hcounts
      omega
    · have htotal := h.total
      rw [openings_cons, closings_cons] at htotal
      omega
  · intro h
    refine ⟨List.forall_mem_cons.mpr ⟨hend, h.not_end⟩, fun front hfront => ?_, ?_⟩
    · rcases List.prefix_cons_iff.mp hfront with rfl | ⟨front', rfl, hfront'⟩
      · exact Nat.zero_le _
      · have hcounts := h.fronts front' hfront'
        rw [openings_cons, closings_cons]
        omega
    · have htotal := h.total
      rw [openings_cons, closings_cons]
      omega

/-- The level of a row of tokens, by counts. -/
theorem level_eq_some_iff {depth depth' : Nat} {ts : List Token} :
    level depth ts = some depth' ↔ Leads depth depth' ts := by
  induction ts generalizing depth with
  | nil =>
    constructor
    · intro h
      cases h
      refine ⟨by simp, fun front hfront => ?_, rfl⟩
      rw [List.prefix_nil.mp hfront]
      exact Nat.zero_le _
    · intro h
      have htotal : depth' + 0 = depth + 0 := h.total
      rw [level, show depth = depth' by omega]
  | cons t ts ih =>
    by_cases hend : t.kind = .endOfInput
    · constructor
      · intro h
        simp [level, hend] at h
      · intro h
        exact absurd hend (h.not_end t List.mem_cons_self)
    cases hopens : t.opensBlock with
    | true =>
      have hcloses := not_closesBlock_of_opensBlock hopens
      have hdepth : depth + (if t.opensBlock then 1 else 0) =
          depth + 1 + if t.closesBlock then 1 else 0 := by simp [hopens, hcloses]
      rw [level_opening hopens, ih, leads_cons_iff hend hdepth]
    | false =>
      cases hcloses : t.closesBlock with
      | false =>
        have hdepth : depth + (if t.opensBlock then 1 else 0) =
            depth + if t.closesBlock then 1 else 0 := by simp [hopens, hcloses]
        rw [level_plain ⟨hend, hopens, hcloses⟩, ih, leads_cons_iff hend hdepth]
      | true =>
        cases depth with
        | succ depth =>
          have hdepth : depth + 1 + (if t.opensBlock then 1 else 0) =
              depth + if t.closesBlock then 1 else 0 := by simp [hopens, hcloses]
          rw [level_closing hcloses, ih, leads_cons_iff hend hdepth]
        | zero =>
          rw [level_zero_closing hcloses]
          constructor
          · intro h
            cases h
          · intro h
            -- The brace alone closes more than is open.
            have hcounts := h.fronts [t] (List.prefix_append [t] ts)
            simp [openings, closings, hopens, hcloses] at hcounts

/-! ## The first place with one closing brace more -/

/-- The tokens with the indices from `p` to `q`, both included. -/
def span (ts : List Token) (p q : Nat) : List Token :=
  (ts.drop p).take (q + 1 - p)

/-- The block that starts at index `p` is closed by the token with index `q`: the tokens from `p` to
`q` hold no end of input and have one closing brace more than opening ones, and no fewer tokens from
`p` on have. -/
structure ClosesAt (ts : List Token) (p q : Nat) : Prop where
  le : p ≤ q
  lt : q < ts.length
  not_end : ∀ t ∈ span ts p q, t.kind ≠ .endOfInput
  excess : closings (span ts p q) = openings (span ts p q) + 1
  first : ∀ r < q, p ≤ r → closings (span ts p r) ≠ openings (span ts p r) + 1

instance (ts : List Token) (p q : Nat) : Decidable (ClosesAt ts p q) :=
  decidable_of_iff (p ≤ q ∧ q < ts.length ∧ (∀ t ∈ span ts p q, t.kind ≠ .endOfInput) ∧
      closings (span ts p q) = openings (span ts p q) + 1 ∧
      ∀ r < q, p ≤ r → closings (span ts p r) ≠ openings (span ts p r) + 1)
    ⟨fun ⟨hle, hlt, hend, hexcess, hfirst⟩ => ⟨hle, hlt, hend, hexcess, hfirst⟩,
      fun h => ⟨h.le, h.lt, h.not_end, h.excess, h.first⟩⟩

/-- If the closing braces are never one more than the opening ones, they are never more. -/
theorem closings_take_le {ts : List Token} {n : Nat}
    (h : ∀ k < n, closings (ts.take (k + 1)) ≠ openings (ts.take (k + 1)) + 1) :
    closings (ts.take n) ≤ openings (ts.take n) := by
  induction n with
  | zero => exact Nat.le_refl _
  | succ n ih =>
    have hbefore := ih fun k hk => h k (by omega)
    have hne := h n (Nat.lt_succ_self n)
    cases ht : ts[n]? with
    | none =>
      have hlength := List.getElem?_eq_none_iff.mp ht
      rw [List.take_of_length_le (by omega)] at hbefore ⊢
      exact hbefore
    | some t =>
      rw [List.take_add_one, ht, Option.toList_some, openings_concat, closings_concat] at hne ⊢
      have hone : (if t.closesBlock then 1 else 0) ≤ 1 := by split <;> omega
      omega

/-- The counts find a closing brace behind tokens that close all they open. -/
theorem ClosesAt.exists_split {ts : List Token} {p q : Nat} (h : ClosesAt ts p q) :
    ∃ seg t, ts.drop p = seg ++ t :: ts.drop (q + 1) ∧ seg.length = q - p ∧
      t.closesBlock = true ∧ level 0 seg = some 0 := by
  have hle := h.le
  have hlt := h.lt
  have hsplit : ts.drop p = (ts.drop p).take (q - p) ++ ts[q] :: ts.drop (q + 1) := by
    have hback : (ts.drop p).drop (q - p) = ts[q] :: ts.drop (q + 1) := by
      rw [List.drop_drop, Nat.add_sub_cancel' hle, List.drop_eq_getElem_cons hlt]
    rw [← hback, List.take_append_drop]
  have hspan : span ts p q = (ts.drop p).take (q - p) ++ [ts[q]] := by
    have hget : (ts.drop p)[q - p]? = some ts[q] := by
      rw [List.getElem?_drop, Nat.add_sub_cancel' hle, List.getElem?_eq_getElem hlt]
    rw [span, show q + 1 - p = q - p + 1 by omega, List.take_add_one, hget]
    rfl
  have hnever : ∀ k < q - p, closings ((ts.drop p).take (k + 1)) ≠
      openings ((ts.drop p).take (k + 1)) + 1 := by
    intro k hk
    have hne := h.first (p + k) (by omega) (by omega)
    rwa [span, show p + k + 1 - p = k + 1 by omega] at hne
  have hbefore := closings_take_le hnever
  have hexcess := h.excess
  have hnot_end := h.not_end
  rw [hspan] at hexcess hnot_end
  rw [openings_concat, closings_concat] at hexcess
  -- The last token makes up the one closing brace more.
  have hcloses : ts[q].closesBlock = true := by
    cases hcloses : ts[q].closesBlock with
    | true => rfl
    | false =>
      rw [hcloses] at hexcess
      simp only [Bool.false_eq_true, if_false] at hexcess
      omega
  rw [hcloses, not_opensBlock_of_closesBlock hcloses] at hexcess
  simp only [if_true, Bool.false_eq_true, if_false] at hexcess
  refine ⟨_, _, hsplit, ?_, hcloses, level_eq_some_iff.mpr ⟨?_, ?_, by omega⟩⟩
  · rw [List.length_take, List.length_drop]
    omega
  · exact fun t ht => hnot_end t (List.mem_append_left _ ht)
  · intro front hfront
    have hlength := hfront.length_le
    rw [List.length_take] at hlength
    have htake : front = (ts.drop p).take front.length :=
      List.prefix_iff_eq_take.mp (hfront.trans (List.take_prefix _ _))
    rw [htake, Nat.zero_add]
    exact closings_take_le fun k hk => hnever k (by omega)

/-- A closing brace behind tokens that close all they open is found by the counts. -/
theorem closesAt_of_split {ts seg back : List Token} {t : Token} {p : Nat}
    (hsplit : ts.drop p = seg ++ t :: back) (ht : t.closesBlock = true)
    (hlevel : level 0 seg = some 0) : ClosesAt ts p (p + seg.length) := by
  have hseg := level_eq_some_iff.mp hlevel
  have htotal := hseg.total
  have hspan : span ts p (p + seg.length) = seg ++ [t] := by
    rw [span, hsplit, show p + seg.length + 1 - p = seg.length + 1 by omega,
      List.take_length_add_append]
    rfl
  refine ⟨Nat.le_add_right _ _, ?_, ?_, ?_, ?_⟩
  · have hlength := congrArg List.length hsplit
    simp only [List.length_drop, List.length_append, List.length_cons] at hlength
    omega
  · rw [hspan]
    intro u hu
    rcases List.mem_append.mp hu with hu | hu
    · exact hseg.not_end u hu
    · rw [List.mem_singleton.mp hu, kind_of_closesBlock ht]
      decide
  · rw [hspan, openings_concat, closings_concat, ht, not_opensBlock_of_closesBlock ht]
    simp only [if_true, Bool.false_eq_true, if_false]
    omega
  · intro r hr hpr
    have hfront : span ts p r <+: seg := by
      rw [span, hsplit, List.take_append_of_le_length (by omega)]
      exact List.take_prefix _ _
    have hcounts := hseg.fronts _ hfront
    omega

/-- The index of the first end of input from `p` on; the number of tokens if there is none. -/
def endFrom (ts : List Token) (p : Nat) : Nat :=
  p + (ts.drop p).findIdx fun t => t.kind == .endOfInput

end Token

/-! ## Passing over a block -/

namespace Reading

open Token (ClosesAt endFrom)

/-- Passing over blocks that are not closed passes over no end of input. -/
theorem exists_front_of_skipBlocks_error {bound : List Token} {depth : Nat} {c d : Cursor}
    {stop : Stop} (h : skipBlocks bound depth c = .error stop d) :
    ∃ seg, c.rest = seg ++ d.rest ∧ ∀ t ∈ seg, t.kind ≠ .endOfInput := by
  induction bound generalizing depth c with
  | nil =>
    cases depth with
    | zero => cases h
    | succ depth =>
      cases h
      exact ⟨[], rfl, by simp⟩
  | cons b bound ih =>
    cases depth with
    | zero => cases h
    | succ depth =>
      by_cases hend : c.token.kind = .endOfInput
      · rw [skipBlocks_end hend] at h
        cases h
        exact ⟨[], rfl, by simp⟩
      · rw [skipBlocks_step hend] at h
        obtain ⟨seg, hseg, hnone⟩ := ih h
        refine ⟨c.token :: seg, ?_, List.forall_mem_cons.mpr ⟨hend, hnone⟩⟩
        rw [Cursor.rest_eq_cons hend, hseg]
        rfl

/-- A block that is not closed is passed over up to the first end of input. -/
theorem eq_ofIndex_of_skipBlock_error {c d : Cursor} {stop : Stop}
    (h : skipBlock c = .error stop d) :
    d = .ofIndex c.tokens (endFrom c.tokens c.position) := by
  have honward : c.Onward d := (forward_skipBlock c).of_error h
  have hend := kind_of_skipBlock_error h
  obtain ⟨seg, hseg, hnone⟩ :=
    exists_front_of_skipBlocks_error (h : skipBlocks c.rest 1 c = .error stop d)
  have hfound : d.rest.findIdx (fun t => t.kind == .endOfInput) = 0 := by
    cases hrest : d.rest with
    | nil => rfl
    | cons t back =>
      rw [Cursor.token_of_rest hrest] at hend
      simp [List.findIdx_cons, hend]
  have hindex : c.rest.findIdx (fun t => t.kind == .endOfInput) = seg.length := by
    rw [hseg, List.findIdx_append, if_neg (by simpa using hnone), hfound, Nat.zero_add]
  rw [endFrom, ← c.rest_eq_drop, hindex]
  exact honward.eq_ofIndex hseg

/-- Passing over a block ends behind its matching brace. -/
theorem skipBlock_of_closesAt {c : Cursor} {q : Nat} (h : ClosesAt c.tokens c.position q) :
    skipBlock c = .ok () (.ofIndex c.tokens (q + 1)) := by
  obtain ⟨seg, t, hsplit, hlength, ht, hlevel⟩ := h.exists_split
  rw [← c.rest_eq_drop] at hsplit
  obtain ⟨d, honward, hd, hskip⟩ := skipBlock_of_level hlevel ht hsplit
  have hrest : c.rest = (seg ++ [t]) ++ d.rest := by
    rw [hd, List.append_assoc]
    exact hsplit
  have hle := h.le
  have hposition : c.position + (seg ++ [t]).length = q + 1 := by
    rw [List.length_append, hlength, List.length_singleton]
    omega
  rw [hskip, honward.eq_ofIndex hrest, hposition]

/-- A block that can be passed over has a matching brace. -/
theorem exists_closesAt_of_skipBlock {c d : Cursor} (h : skipBlock c = .ok () d) :
    ∃ q, ClosesAt c.tokens c.position q := by
  obtain ⟨seg, t, hsplit, ht, hlevel⟩ := level_of_skipBlock h
  rw [c.rest_eq_drop] at hsplit
  exact ⟨_, Token.closesAt_of_split hsplit ht hlevel⟩

end Reading

namespace Walk

open Token (ClosesAt closings endFrom openings)

/-- **Passing over a block finds exactly the matching brace.**  From any machine, a block can be
passed over exactly if its tokens have a matching brace, which is at any depth of nesting the first
token where one block more is closed than opened.  Then the cursor ends behind that brace.  If there
is none, the block is unclosed; the fault points at the first end of input from the cursor on, where
the cursor stays, be it a token of the list or the one behind its last token.  Nothing but the
cursor changes in either case.  A string literal does not count, whatever its text. -/
theorem read_skipBlock_matching (m : Machine) :
    ((∃ m', read .skipBlock m = .ok () m') ↔ ∃ q, ClosesAt m.cursor.tokens m.cursor.position q) ∧
      (∀ q, ClosesAt m.cursor.tokens m.cursor.position q →
        read .skipBlock m = .ok () { m with cursor := .ofIndex m.cursor.tokens (q + 1) }) ∧
      ((¬ ∃ q, ClosesAt m.cursor.tokens m.cursor.position q) →
        let stopped := Cursor.ofIndex m.cursor.tokens (endFrom m.cursor.tokens m.cursor.position)
        read .skipBlock m = .error (.fault (.ofPlace stopped.token.place .unclosedBlock))
          { m with cursor := stopped }) ∧
      ∀ t : Token, t.kind = .string → ∀ ts,
        openings (t :: ts) = openings ts ∧ closings (t :: ts) = closings ts := by
  have hcloses : ∀ q, ClosesAt m.cursor.tokens m.cursor.position q →
      read .skipBlock m = .ok () { m with cursor := .ofIndex m.cursor.tokens (q + 1) } :=
    fun q hq => read_of_ok (Reading.skipBlock_of_closesAt hq)
  refine ⟨⟨?_, ?_⟩, hcloses, ?_, ?_⟩
  · rintro ⟨m', h⟩
    obtain ⟨d, hskip, -⟩ := read_ok_iff.mp h
    exact Reading.exists_closesAt_of_skipBlock hskip
  · rintro ⟨q, hq⟩
    exact ⟨_, hcloses q hq⟩
  · intro hnone stopped
    cases hskip : Reading.skipBlock m.cursor with
    | ok a d => exact absurd (Reading.exists_closesAt_of_skipBlock hskip) hnone
    | error stop d =>
      have hstop := Reading.skipBlock_error hskip
      obtain rfl : d = stopped := Reading.eq_ofIndex_of_skipBlock_error hskip
      rw [hstop] at hskip
      exact read_of_error hskip
  · intro t ht ts
    have hplain : t.Plain := Token.plain_of_kind (by simp [ht]) (by simp [ht])
    rw [Token.openings_cons, Token.closings_cons, hplain.not_opening, hplain.not_closing]
    exact ⟨rfl, rfl⟩

/-- The tokens behind the opening brace in `{ { "}" } x } y`. -/
def nested : List Token :=
  [⟨.punctuation, "\x7b", ⟨1, 3⟩⟩, ⟨.string, "\x7d", ⟨1, 5⟩⟩, ⟨.punctuation, "\x7d", ⟨1, 9⟩⟩,
    ⟨.identifier, "x", ⟨1, 11⟩⟩, ⟨.punctuation, "\x7d", ⟨1, 13⟩⟩, ⟨.identifier, "y", ⟨1, 15⟩⟩,
    .endAt ⟨1, 16⟩]

/-- The brace in the string literal does not count.  Behind the matching brace there is no other,
and the end of input is found. -/
theorem read_skipBlock_nested :
    ClosesAt nested 0 4 ∧
      read .skipBlock (Session.load {} nested) =
        .ok () { Session.load {} nested with cursor := .ofIndex nested 5 } ∧
      ¬ (∃ q, ClosesAt nested 5 q) ∧
      read .skipBlock { Session.load {} nested with cursor := .ofIndex nested 5 } =
        .error (.fault (.ofPlace ⟨1, 16⟩ .unclosedBlock))
          { Session.load {} nested with cursor := .ofIndex nested 6 } := by
  have hcloses : ClosesAt nested 0 4 := by decide
  have hnone : ¬ ∃ q, ClosesAt nested 5 q := by
    have hall : ∀ q < nested.length, ¬ ClosesAt nested 5 q := by decide
    exact fun ⟨q, hq⟩ => hall q hq.lt hq
  obtain ⟨-, hskip, -⟩ := read_skipBlock_matching (Session.load {} nested)
  obtain ⟨-, -, hstop, -⟩ :=
    read_skipBlock_matching { Session.load {} nested with cursor := .ofIndex nested 5 }
  exact ⟨hcloses, hskip 4 hcloses, hnone, hstop hnone⟩

end Walk

end TokenWalk
