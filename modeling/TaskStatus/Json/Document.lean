import TaskStatus.Json.Numeral
import TaskStatus.Json.Quoted
import TaskStatus.Json.Value

/-!
# Reading documents

A document is one value with insignificant white space around it. A reader takes the
characters left of the text and gives what it read with the characters after it; the items
of an array and the members of an object are read by a reader that is allowed one level of
nesting less, so nesting is what the recursion follows. Runs of items, members and
characters are bounded by the length of the text, which no run exceeds.

`Json.parse` reads a document, or says where and why the text is none.
-/

namespace TaskStatus.Json

/-- Whether a character is white space between tokens. -/
def isInsignificant (c : Char) : Bool := c = ' ' || c = '\n' || c = '\t' || c = '\r'

/-- Drops the white space before the next token. -/
def skip (cs : List Char) : List Char := cs.dropWhile isInsignificant

/-- Reads the letters that are left of a word whose first one has been read. -/
def readWord {α : Type} (value : α) : List Char → List Char → Reading α
  | [], left => .ok (value, left)
  | _ :: _, [] => failAt .endInValue []
  | w :: ws, c :: cs => if c = w then readWord value ws cs else failPast .expectedWord (c :: cs)

/-- Reads the items of an array that follow another one, and its end. There are at most as
many as the bound says. -/
def readMoreItems (item : List Char → Reading Json) : Nat → List Char → Reading (List Json)
  | 0, _ => failAt .endInArray []
  | n + 1, cs =>
    match skip cs with
    | [] => failAt .endInArray []
    | ']' :: left => .ok ([], left)
    | ',' :: left =>
      match skip left with
      | [] => failAt .endInValue []
      | ']' :: left => failPast .trailingComma (']' :: left)
      | left =>
        (item left).andThen fun v left ↦
        (readMoreItems item n left).andThen fun vs left ↦
        .ok (v :: vs, left)
    | left => failPast .expectedCommaOrBracket left

/-- Reads the items of an array and its end, behind its opening bracket. -/
def readItems (item : List Char → Reading Json) (bound : Nat) (cs : List Char) :
    Reading (List Json) :=
  match skip cs with
  | [] => failAt .endInArray []
  | ']' :: left => .ok ([], left)
  | left =>
    (item left).andThen fun v left ↦
    (readMoreItems item bound left).andThen fun vs left ↦
    .ok (v :: vs, left)

/-- Reads a member of an object behind the opening quotation mark of its key. -/
def readMember (item : List Char → Reading Json) (bound : Nat) (cs : List Char) :
    Reading (String × Json) :=
  (readString bound cs).andThen fun key left ↦
  match skip left with
  | [] => failAt .endInObject []
  | ':' :: left =>
    (item left).andThen fun v left ↦
    .ok ((key, v), left)
  | left => failPast .expectedColon left

/-- Reads the members of an object that follow another one, and its end. There are at most
as many as the second bound says. -/
def readMoreMembers (item : List Char → Reading Json) (bound : Nat) :
    Nat → List Char → Reading (List (String × Json))
  | 0, _ => failAt .endInObject []
  | n + 1, cs =>
    match skip cs with
    | [] => failAt .endInObject []
    | '}' :: left => .ok ([], left)
    | ',' :: left =>
      match skip left with
      | [] => failAt .endInValue []
      | '"' :: left =>
        (readMember item bound left).andThen fun m left ↦
        (readMoreMembers item bound n left).andThen fun ms left ↦
        .ok (m :: ms, left)
      | '}' :: left => failPast .trailingComma ('}' :: left)
      | left => failPast .keyNotString left
    | left => failPast .expectedCommaOrBrace left

/-- Reads the members of an object and its end, behind its opening brace. -/
def readMembers (item : List Char → Reading Json) (bound : Nat) (cs : List Char) :
    Reading (List (String × Json)) :=
  match skip cs with
  | [] => failAt .endInObject []
  | '}' :: left => .ok ([], left)
  | '"' :: left =>
    (readMember item bound left).andThen fun m left ↦
    (readMoreMembers item bound bound left).andThen fun ms left ↦
    .ok (m :: ms, left)
  | left => failPast .keyNotString left

/-- Reads a value whose items and members are read by `item?`; without it, arrays and
objects are refused as nested too deeply. -/
def readWith (item? : Option (List Char → Reading Json)) (bound : Nat) (cs : List Char) :
    Reading Json :=
  match skip cs with
  | [] => failAt .endInValue []
  | 'n' :: left => readWord .null ['u', 'l', 'l'] left
  | 't' :: left => readWord (.bool true) ['r', 'u', 'e'] left
  | 'f' :: left => readWord (.bool false) ['a', 'l', 's', 'e'] left
  | '"' :: left =>
    (readString bound left).andThen fun s left ↦
    .ok (.string s, left)
  | '[' :: left =>
    match item? with
    | none => failPast .tooDeep ('[' :: left)
    | some item =>
      (readItems item bound left).andThen fun vs left ↦
      .ok (.array vs, left)
  | '{' :: left =>
    match item? with
    | none => failPast .tooDeep ('{' :: left)
    | some item =>
      (readMembers item bound left).andThen fun ms left ↦
      .ok (ofMembers ms, left)
  | c :: left =>
    if c = '-' ∨ c.isDigit then
      (readNumber (c :: left)).andThen fun n left ↦
      .ok (.number n, left)
    else failPast .expectedValue (c :: left)

/-- Reads a value in which arrays and objects nest at most `depth` deep. -/
def readValue (bound : Nat) : (depth : Nat) → List Char → Reading Json
  | 0 => readWith none bound
  | depth + 1 => readWith (some (readValue bound depth)) bound

/-- How deep arrays and objects may nest. -/
def maxDepth : Nat := 127

/-- Reads a document: one value, and nothing but white space around it. -/
def readDocument (cs : List Char) : Except Failure Json :=
  match readValue cs.length maxDepth cs with
  | .error f => .error f
  | .ok (v, left) =>
    match skip left with
    | [] => .ok v
    | left => failPast .trailingCharacters left

/-- The document that a text is, or the reason why it is none. -/
def parse (text : String) : Except SyntaxError Json :=
  (readDocument text.toList).mapError (·.locate text)

end TaskStatus.Json
