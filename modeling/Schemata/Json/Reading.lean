import Schemata.Entries
import Schemata.Json.Basic
import Schemata.Json.Token

namespace Schemata.Json

/-! Reading a JSON text. The containers that are still open form a stack, and each
token either adds to the innermost one, opens one or closes it. -/

inductive Expected where
  | value
  | valueOrClose
  | key
  | keyOrClose
  | colon
  | separator

inductive Frame where
  | document (value : Option Json)
  /-- Items in reverse. -/
  | array (items : List Json)
  /-- Members so far and the key whose value is being read. -/
  | object (members : List (String × Json)) (key : Option String)

structure Progress where
  expected : Expected
  frames : List Frame

namespace Progress

def start : Progress where
  expected := .value
  frames := [.document none]

def add (value : Json) : List Frame → Option Progress
  | .document none :: outer => some ⟨.separator, .document (some value) :: outer⟩
  | .array items :: outer => some ⟨.separator, .array (value :: items) :: outer⟩
  | .object members (some key) :: outer =>
      some ⟨.separator, .object (Entries.put key value members) none :: outer⟩
  | _ => none

def closeArray : List Frame → Option Progress
  | .array items :: outer => add (.array items.reverse) outer
  | _ => none

def closeObject : List Frame → Option Progress
  | .object members none :: outer => add (.object members) outer
  | _ => none

private def scalar? : Token → Option Json
  | .null => some .null
  | .bool value => some (.bool value)
  | .number value => some (.number value)
  | .string value => some (.string value)
  | _ => none

private def beginValue (nesting : Nat) (frames : List Frame) :
    Token → Option Progress
  | .openArray =>
      if frames.length ≤ nesting then some ⟨.valueOrClose, .array [] :: frames⟩
      else none
  | .openObject =>
      if frames.length ≤ nesting then some ⟨.keyOrClose, .object [] none :: frames⟩
      else none
  | token => (scalar? token).bind (add · frames)

private def beginMember (frames : List Frame) : Token → Option Progress
  | .string key =>
      match frames with
      | .object members none :: outer =>
          some ⟨.colon, .object members (some key) :: outer⟩
      | _ => none
  | _ => none

/-- Takes in one token, with at most `nesting` containers open at a time. -/
def step (nesting : Nat) (progress : Progress) (token : Token) :
    Option Progress :=
  let frames := progress.frames
  match progress.expected, token with
  | .valueOrClose, .closeArray => closeArray frames
  | .value, token | .valueOrClose, token => beginValue nesting frames token
  | .keyOrClose, .closeObject => closeObject frames
  | .key, token | .keyOrClose, token => beginMember frames token
  | .colon, .colon => some ⟨.value, frames⟩
  | .separator, .closeArray => closeArray frames
  | .separator, .closeObject => closeObject frames
  | .separator, .comma =>
      match frames with
      | .array _ :: _ => some ⟨.value, frames⟩
      | .object _ _ :: _ => some ⟨.key, frames⟩
      | _ => none
  | _, _ => none

def result? (progress : Progress) : Option Json :=
  match progress.frames with
  | [.document value] => value
  | _ => none

end Progress

def ofTokens? (nesting : Nat) (tokens : List Token) : Option Json := do
  (← tokens.foldlM (Progress.step nesting) .start).result?

/-- The value of a JSON text whose containers are nested at most `nesting` deep. -/
def parse? (nesting : Nat) (text : String) : Option Json := do
  ofTokens? nesting (← Token.scan text.toList)

def documentNesting : Nat := 127

end Schemata.Json
