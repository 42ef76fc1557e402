import TokenWalk.Text.Quoted

/-!
# Tokens

A token is a kind, a text and the place where it starts.  `Token.make` is the checked constructor:
places count from one, and only the end of input and an empty string literal have no text.
-/

namespace TokenWalk

/-- A place in a source text: line and column, both counted from one. -/
structure Place where
  line : Nat := 1
  column : Nat := 1
  deriving DecidableEq, Repr

/-- The kinds of tokens. -/
inductive Kind where
  | keyword
  | identifier
  | integer
  | float
  | string
  | operator
  | punctuation
  | endOfInput
  deriving DecidableEq, Repr

namespace Kind

/-- The name of a kind in messages. -/
def name : Kind → String
  | .keyword => "KEYWORD"
  | .identifier => "IDENTIFIER"
  | .integer => "INTEGER"
  | .float => "FLOAT"
  | .string => "STRING"
  | .operator => "OPERATOR"
  | .punctuation => "PUNCTUATION"
  | .endOfInput => "EOF"

/-- Every kind. -/
def all : List Kind :=
  [.keyword, .identifier, .integer, .float, .string, .operator, .punctuation, .endOfInput]

/-- The kind with a given name. -/
def ofName? (text : String) : Option Kind :=
  all.find? fun kind => kind.name == text

/-- Kinds have different names. -/
theorem ofName?_name (kind : Kind) : ofName? kind.name = some kind := by
  cases kind <;> rfl

/-- The end of input and string literals may have an empty text. -/
def allowsEmpty : Kind → Bool
  | .endOfInput => true
  | .string => true
  | _ => false

end Kind

/-- A token. -/
structure Token where
  kind : Kind
  text : String
  place : Place
  deriving DecidableEq, Repr

namespace Token

/-- Why no token can be made. -/
inductive Defect where
  /-- No kind has this name. -/
  | unknownKind (name : String)
  /-- Line or column is below one. -/
  | place (line column : Int)
  /-- A token of this kind needs a text. -/
  | emptyText (kind : Kind)
  deriving DecidableEq, Repr

/-- The words for a defect. -/
def Defect.message : Defect → String
  | .unknownKind name => "Unknown token kind: " ++ Text.quoted name
  | .place line column =>
      "Token position must be positive, got " ++ toString line ++ ":" ++ toString column
  | .emptyText kind => kind.name ++ " token must have text"

/-- The token with the given parts, if they pass the checks. -/
def make (kindName text : String) (line column : Int) : Except Defect Token :=
  match Kind.ofName? kindName with
  | none => .error (.unknownKind kindName)
  | some kind =>
      if line < 1 || column < 1 then .error (.place line column)
      else if text.isEmpty && !kind.allowsEmpty then .error (.emptyText kind)
      else .ok ⟨kind, text, ⟨line.toNat, column.toNat⟩⟩

/-- Has the kind and, if one is given, the text. -/
def is (t : Token) (kind : Kind) (text? : Option String) : Bool :=
  t.kind == kind && text?.all (t.text == ·)

/-- The end of the input at a place. -/
def endAt (place : Place) : Token :=
  ⟨.endOfInput, "", place⟩

/-- The opening brace of a block. -/
def opensBlock (t : Token) : Bool :=
  t.is .punctuation (some "\x7b")

/-- The closing brace of a block. -/
def closesBlock (t : Token) : Bool :=
  t.is .punctuation (some "\x7d")

/-- The token as messages name it. -/
def describe (t : Token) : String :=
  if t.kind == .endOfInput then "end of input" else t.kind.name ++ " '" ++ t.text ++ "'"

/-- The token with all its parts, as a token dump shows it. -/
def dump (t : Token) : String :=
  "Token(" ++ t.kind.name ++ ", " ++ Text.quoted t.text ++ ", line=" ++ toString t.place.line ++
    ", column=" ++ toString t.place.column ++ ")"

end Token

end TokenWalk
