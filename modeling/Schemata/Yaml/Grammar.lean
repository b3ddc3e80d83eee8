import Schemata.Yaml.Scanner
import Schemata.Yaml.Tree

namespace Schemata.Yaml

/-! Building the tree of a document from its tokens. Every step takes a token or
ends a collection, so a multiple of the number of tokens bounds the steps. -/

/-- The stems of the tag handles of a document. -/
abbrev Handles := List (List Char × List Char)

def standardHandles : Handles :=
  [("!".toList, "!".toList), ("!!".toList, "tag:yaml.org,2002:".toList)]

def TagToken.resolve? (handles : Handles) (tag : TagToken) : Option String :=
  if tag.handle.isEmpty then some (String.ofList tag.suffix)
  else (handles.lookup tag.handle).map fun stem => String.ofList (stem ++ tag.suffix)

/-- An anchor and a tag in either order. A lone `!` is a tag as well, also on a key. -/
private def readProperties (handles : Handles) :
    List Token → Option (Properties String × List Token)
  | .anchor name :: .tag tag :: rest | .tag tag :: .anchor name :: rest => do
      return (⟨some (String.ofList name), some (← tag.resolve? handles)⟩, rest)
  | .anchor name :: rest => some (⟨some (String.ofList name), none⟩, rest)
  | .tag tag :: rest => do return (⟨none, some (← tag.resolve? handles)⟩, rest)
  | tokens => some (.empty, tokens)

private def endsBlockItem (token : Token) : Bool :=
  token == .blockEntry || token == .blockEnd

private def endsBlockPart (token : Token) : Bool :=
  token == .key || token == .value || token == .blockEnd

private def endsFlowPart (closing token : Token) : Bool :=
  token == .flowEntry || token == closing

/-- Whether nothing is written before a token that ends a part of a collection. -/
private def isAbsent (ends : Token → Bool) (tokens : List Token) : Bool :=
  tokens.head?.any ends

section

variable (handles : Handles)

/-- Where a node may stand: in a flow collection, in a block, or in a block mapping,
whose sequences need no further indentation. -/
inductive Place where
  | flow
  | block
  | blockMapping
  deriving DecidableEq

mutual
private def readNode : (bound : Nat) → Place → List Token →
    Option (Tree String × List Token)
  | 0, _, _ => none
  | _ + 1, _, .aliasOf name :: rest => some (.aliasOf (String.ofList name), rest)
  | bound + 1, place, tokens => do
      let (properties, tokens) ← readProperties handles tokens
      match tokens with
      | .scalar plain text :: rest =>
          return (.scalar (properties) plain (String.ofList text), rest)
      | .flowSequenceStart :: rest =>
          let (items, rest) ← readFlowItems bound true rest
          return (.sequence properties items, rest)
      | .flowMappingStart :: rest =>
          let (entries, rest) ← readFlowEntries bound true rest
          return (.mapping properties entries, rest)
      | tokens =>
          match place, tokens with
          | .block, .blockSequenceStart :: rest
          | .blockMapping, .blockSequenceStart :: rest =>
              let (items, rest) ← readBlockItems bound rest
              return (.sequence properties items, rest)
          | .block, .blockMappingStart :: rest
          | .blockMapping, .blockMappingStart :: rest =>
              let (entries, rest) ← readBlockEntries bound rest
              return (.mapping properties entries, rest)
          | .blockMapping, .blockEntry :: _ =>
              let (items, rest) ← readUnindentedItems bound tokens
              return (.sequence properties items, rest)
          | _, tokens =>
              if properties.IsEmpty then none
              else return (.scalar properties true "", tokens)

private def readPart (ends : Token → Bool) : (bound : Nat) → Place →
    List Token → Option (Tree String × List Token)
  | 0, _, _ => none
  | bound + 1, place, tokens =>
      if isAbsent ends tokens then some (.absent, tokens)
      else readNode bound place tokens

private def readBlockItems : (bound : Nat) → List Token →
    Option (List (Tree String) × List Token)
  | 0, _ => none
  | _ + 1, .blockEnd :: rest => some ([], rest)
  | bound + 1, .blockEntry :: rest => do
      let (item, rest) ← readPart endsBlockItem bound .block rest
      let (items, rest) ← readBlockItems bound rest
      return (item :: items, rest)
  | _ + 1, _ => none

private def readUnindentedItems : (bound : Nat) → List Token →
    Option (List (Tree String) × List Token)
  | 0, _ => none
  | bound + 1, .blockEntry :: rest => do
      let ends (token : Token) := endsBlockItem token || endsBlockPart token
      let (item, rest) ← readPart ends bound .block rest
      let (items, rest) ← readUnindentedItems bound rest
      return (item :: items, rest)
  | _ + 1, tokens => some ([], tokens)

private def readBlockEntries : (bound : Nat) → List Token →
    Option (List (Tree String × Tree String) × List Token)
  | 0, _ => none
  | _ + 1, .blockEnd :: rest => some ([], rest)
  | bound + 1, .key :: rest => do
      let (key, rest) ← readPart endsBlockPart bound .blockMapping rest
      let (value, rest) ←
        match rest with
        | .value :: rest => readPart endsBlockPart bound .blockMapping rest
        | rest => some (.absent, rest)
      let (entries, rest) ← readBlockEntries bound rest
      return ((key, value) :: entries, rest)
  | _ + 1, _ => none

private def readFlowItems : (bound : Nat) → (first : Bool) → List Token →
    Option (List (Tree String) × List Token)
  | 0, _, _ => none
  | _ + 1, _, .flowSequenceEnd :: rest => some ([], rest)
  | _ + 1, false, .flowEntry :: .flowSequenceEnd :: rest => some ([], rest)
  | bound + 1, false, .flowEntry :: rest => readFlowItems bound true rest
  | _ + 1, false, _ => none
  | bound + 1, true, .key :: rest => do
      let (pair, rest) ← readFlowPair bound rest
      let (items, rest) ← readFlowItems bound false rest
      return (.mapping .empty [pair] :: items, rest)
  | bound + 1, true, tokens => do
      let (item, rest) ← readNode bound .flow tokens
      let (items, rest) ← readFlowItems bound false rest
      return (item :: items, rest)

/-- A mapping of one entry inside a flow sequence. In place of an absent key, the
token that follows is lost. -/
private def readFlowPair : (bound : Nat) → List Token →
    Option ((Tree String × Tree String) × List Token)
  | 0, _ => none
  | bound + 1, tokens => do
      let ends := endsFlowPart .flowSequenceEnd
      let (key, rest) ←
        if isAbsent (fun token => ends token || token == .value) tokens then
          some (.absent, tokens.tail)
        else readNode bound .flow tokens
      match rest with
      | .value :: rest =>
          let (value, rest) ← readPart ends bound .flow rest
          return ((key, value), rest)
      | rest => return ((key, .absent), rest)

private def readFlowEntries : (bound : Nat) → (first : Bool) → List Token →
    Option (List (Tree String × Tree String) × List Token)
  | 0, _, _ => none
  | _ + 1, _, .flowMappingEnd :: rest => some ([], rest)
  | _ + 1, false, .flowEntry :: .flowMappingEnd :: rest => some ([], rest)
  | bound + 1, false, .flowEntry :: rest => readFlowEntries bound true rest
  | _ + 1, false, _ => none
  | bound + 1, true, .key :: rest => do
      let ends := endsFlowPart .flowMappingEnd
      let (key, rest) ←
        readPart (fun token => ends token || token == .value) bound .flow rest
      let (value, rest) ←
        match rest with
        | .value :: rest => readPart ends bound .flow rest
        | rest => some (.absent, rest)
      let (entries, rest) ← readFlowEntries bound false rest
      return ((key, value) :: entries, rest)
  | bound + 1, true, tokens => do
      let (key, rest) ← readNode bound .flow tokens
      let (entries, rest) ← readFlowEntries bound false rest
      return ((key, .absent) :: entries, rest)
end

end

private def steps (tokens : List Token) : Nat := 4 * tokens.length + 8

/-- The directives of a document and the tag handles they define. Each kind of
directive comes once, a tag directive once for each handle. -/
private structure Prologue where
  versioned : Bool
  handles : Handles

private def readPrologue : Prologue → List Token → Option (Prologue × List Token)
  | prologue, .versionDirective major minor :: rest =>
      if prologue.versioned || major ≠ 1 || (minor ≠ 1 && minor ≠ 2) then none
      else readPrologue { prologue with versioned := true } rest
  | prologue, .tagDirective handle stem :: rest =>
      if (prologue.handles.lookup handle).isSome then none
      else
        readPrologue
          { prologue with handles := (handle, stem) :: prologue.handles } rest
  | prologue, tokens => some (prologue, tokens)

private def endsDocument : Token → Bool
  | .versionDirective .. | .tagDirective .. | .documentStart | .documentEnd => true
  | _ => false

private def readDocument (tokens : List Token) :
    Option (Option (Tree String) × List Token) := do
  match tokens with
  | [] => return (none, [])
  | .versionDirective .. :: _ | .tagDirective .. :: _ | .documentStart :: _ =>
      let (prologue, tokens) ← readPrologue ⟨false, []⟩ tokens
      match tokens with
      | .documentStart :: rest =>
          if rest.head?.all endsDocument then return (some .absent, rest)
          else
            let handles := prologue.handles ++ standardHandles
            let (root, rest) ← readNode handles (steps rest) .block rest
            return (some root, rest)
      | _ => none
  | tokens =>
      let (root, rest) ← readNode standardHandles (steps tokens) .block tokens
      return (some root, rest)

/-- The root of a text that holds one document, or none if it holds nothing. -/
def Tree.parse? (text : String) : Option (Option (Tree String)) := do
  let (root, rest) ← readDocument (← scan text.toList)
  if rest.all (· == .documentEnd) then return root else none

end Schemata.Yaml
