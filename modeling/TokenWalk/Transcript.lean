import TokenWalk.Session

/-!
# Transcripts

What a command writes: its output and its error channel, each as one text.
-/

namespace TokenWalk

/-- The texts written to the two channels. -/
structure Transcript where
  out : String := ""
  err : String := ""
  deriving DecidableEq, Repr

namespace Transcript

/-- What was written first, then what was written next. -/
def append (first next : Transcript) : Transcript :=
  ⟨first.out ++ next.out, first.err ++ next.err⟩

instance : Append Transcript := ⟨append⟩

@[simp]
theorem out_append (first next : Transcript) : (first ++ next).out = first.out ++ next.out := rfl

@[simp]
theorem err_append (first next : Transcript) : (first ++ next).err = first.err ++ next.err := rfl

theorem append_assoc (t u v : Transcript) : t ++ u ++ v = t ++ (u ++ v) := by
  show Transcript.mk _ _ = Transcript.mk _ _
  simp only [out_append, err_append, String.append_assoc]

/-- A text on the output channel. -/
def say (text : String) : Transcript :=
  { out := text }

theorem say_append (text : String) (t : Transcript) : say text ++ t = ⟨text ++ t.out, t.err⟩ := by
  show Transcript.mk _ _ = _
  simp [say]

/-- Lines, each with its end. -/
def unlines (lines : List String) : String :=
  String.join (lines.map (· ++ "\n"))

/-- What a session wrote between two of its states. -/
def between (debug : Bool) (before after : Session) : Transcript :=
  let printed := (after.printed.extract before.printed.size after.printed.size).toList
  let entries := (after.journal.extract before.journal.size after.journal.size).toList
  { out := unlines (printed.map Value.text), err := unlines (entries.flatMap (Entry.lines debug)) }

/-- A new session writes all that it has printed and noted. -/
theorem between_new (debug : Bool) (session : Session) :
    between debug {} session =
      ⟨unlines (session.printed.toList.map Value.text),
        unlines (session.journal.toList.flatMap (Entry.lines debug))⟩ := by
  simp [between]

/-- A session that has not moved on has written nothing. -/
theorem append_between_self (t : Transcript) (debug : Bool) (session : Session) :
    t ++ between debug session session = t := by
  show Transcript.mk _ _ = t
  simp [between, unlines]

end Transcript

end TokenWalk
