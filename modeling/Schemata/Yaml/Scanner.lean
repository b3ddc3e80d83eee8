import Schemata.Yaml.BlockScalar
import Schemata.Yaml.Directive
import Schemata.Yaml.PlainScalar
import Schemata.Yaml.QuotedScalar

namespace Schemata.Yaml

/-! Cutting a text into tokens. A node that starts a line may turn out to be a key
only when its colon comes, so the tokens that make it one are put in front of it
afterwards. -/

/-- A node that a colon would make a key. -/
structure PendingKey where
  /-- It stands at the indentation of its block, so the colon has to come. -/
  required : Bool
  /-- The number of tokens in front of it. -/
  position : Nat
  offset : Nat
  line : Nat
  column : Nat

structure Scanner where
  cursor : Cursor
  /-- The latest token comes first. -/
  tokens : List Token
  count : Nat
  /-- The column of the innermost block, or -1 outside all blocks. -/
  indent : Int
  outerIndents : List Int
  keyAllowed : Bool
  key : Option PendingKey
  /-- The pending keys around the flow collections that are open. -/
  outerKeys : List (Option PendingKey)

namespace Scanner

def start (text : List Char) : Scanner where
  cursor := .start text
  tokens := []
  count := 0
  indent := -1
  outerIndents := []
  keyAllowed := true
  key := none
  outerKeys := []

def inFlow (scanner : Scanner) : Bool := !scanner.outerKeys.isEmpty

def emit (token : Token) (scanner : Scanner) : Scanner :=
  { scanner with
    tokens := token :: scanner.tokens
    count := scanner.count + 1 }

def emitAt (token : Token) (cursor : Cursor) (scanner : Scanner) : Scanner :=
  { scanner.emit token with cursor }

def allowKey (keyAllowed : Bool) (scanner : Scanner) : Scanner :=
  { scanner with keyAllowed }

/-- A required key cannot be given up. -/
def giveUpKey (scanner : Scanner) : Option Scanner :=
  if scanner.key.any (·.required) then none
  else some { scanner with key := none }

def expectKey (scanner : Scanner) : Option Scanner :=
  if !scanner.keyAllowed then some scanner
  else do
    let scanner ← scanner.giveUpKey
    let cursor := scanner.cursor
    let key : PendingKey :=
      { required := !scanner.inFlow && scanner.indent == cursor.column
        position := scanner.count
        offset := cursor.offset
        line := cursor.line
        column := cursor.column }
    return { scanner with key := some key }

/-- A key and its colon stand on one line, at most 1024 bytes apart. -/
private def checkKey (cursor : Cursor) (key : Option PendingKey) :
    Option (Option PendingKey) :=
  match key with
  | none => some none
  | some key =>
      if key.line < cursor.line || key.offset + 1024 < cursor.offset then
        if key.required then none else some none
      else some (some key)

def checkKeys (scanner : Scanner) : Option Scanner := do
  let key ← checkKey scanner.cursor scanner.key
  let outerKeys ← scanner.outerKeys.mapM (checkKey scanner.cursor)
  return { scanner with key, outerKeys }

/-- Opens a block at a column that is further in, unless in a flow collection. -/
def openBlock (column : Nat) (opening : Token) (scanner : Scanner) : Scanner :=
  if scanner.inFlow || column ≤ scanner.indent then scanner
  else
    { scanner.emit opening with
      indent := column
      outerIndents := scanner.indent :: scanner.outerIndents }

/-- Puts the tokens of a key in front of the node that it is, and opens a mapping
there if it is further in. -/
def insertKey (key : PendingKey) (scanner : Scanner) : Scanner :=
  let behind := scanner.count - key.position
  let (later, earlier) := scanner.tokens.splitAt behind
  let before := { scanner with tokens := earlier }
  let inserted := (before.openBlock key.column .blockMappingStart).emit .key
  { inserted with tokens := later ++ inserted.tokens }

private def closeBlocksFrom (column : Int) :
    (outer : List Int) → Scanner → Scanner
  | [], scanner => scanner
  | outer :: rest, scanner =>
      if column < scanner.indent then
        closeBlocksFrom column rest
          { scanner.emit .blockEnd with indent := outer, outerIndents := rest }
      else scanner

def closeBlocks (column : Int) (scanner : Scanner) : Scanner :=
  if scanner.inFlow then scanner
  else closeBlocksFrom column scanner.outerIndents scanner

/-- Moves to the next token, over white space, comments and line breaks. Tabs do
not count as white space where indentation matters. -/
private def skipFrom : (bound : Nat) → Scanner → Scanner
  | 0, scanner => scanner
  | bound + 1, scanner =>
      let cursor := scanner.cursor
      let cursor :=
        if cursor.column = 0 && cursor.next? == some '\ufeff' then cursor.advance 1
        else cursor
      let tabs := scanner.inFlow || !scanner.keyAllowed
      let cursor := cursor.dropWhile fun char => char == ' ' || (tabs && char == '\t')
      let cursor :=
        if cursor.next? == some '#' then cursor.dropWhile (!isBreak ·) else cursor
      if cursor.next?.any isBreak then
        skipFrom bound
          { scanner with
            cursor := cursor.nextLine
            keyAllowed := scanner.keyAllowed || !scanner.inFlow }
      else { scanner with cursor }

private def documentMark (token : Token) (scanner : Scanner) : Option Scanner := do
  let scanner ← (scanner.closeBlocks (-1)).giveUpKey
  return (scanner.emitAt token (scanner.cursor.advance 3)).allowKey false

private def directive (bound : Nat) (scanner : Scanner) : Option Scanner := do
  let scanner ← (scanner.closeBlocks (-1)).giveUpKey
  let (token, cursor) ← readDirective bound scanner.cursor
  return (scanner.emitAt token cursor).allowKey false

private def openFlow (token : Token) (scanner : Scanner) : Option Scanner := do
  let scanner ← scanner.expectKey
  let scanner := scanner.emitAt token (scanner.cursor.advance 1)
  return { scanner with
    keyAllowed := true
    key := none
    outerKeys := scanner.key :: scanner.outerKeys }

private def closeFlow (token : Token) (scanner : Scanner) : Option Scanner := do
  let scanner ← scanner.giveUpKey
  let scanner := scanner.emitAt token (scanner.cursor.advance 1)
  return { scanner with
    keyAllowed := false
    key := scanner.outerKeys.headD none
    outerKeys := scanner.outerKeys.tail }

private def flowEntry (scanner : Scanner) : Option Scanner := do
  let scanner ← scanner.giveUpKey
  return (scanner.emitAt .flowEntry (scanner.cursor.advance 1)).allowKey true

/-- Block entries, keys and values of blocks stand where a key could. -/
private def openBlockHere (opening : Token) (scanner : Scanner) : Option Scanner :=
  if scanner.inFlow then some scanner
  else if scanner.keyAllowed then
    some (scanner.openBlock scanner.cursor.column opening)
  else none

private def blockEntry (scanner : Scanner) : Option Scanner := do
  let scanner ← (← scanner.openBlockHere .blockSequenceStart).giveUpKey
  return (scanner.emitAt .blockEntry (scanner.cursor.advance 1)).allowKey true

private def explicitKey (scanner : Scanner) : Option Scanner := do
  let scanner ← (← scanner.openBlockHere .blockMappingStart).giveUpKey
  return (scanner.emitAt .key (scanner.cursor.advance 1)).allowKey (!scanner.inFlow)

private def mappingValue (scanner : Scanner) : Option Scanner := do
  let scanner ←
    match scanner.key with
    | some key =>
        some { (scanner.insertKey key).allowKey false with key := none }
    | none =>
        (scanner.openBlockHere .blockMappingStart).map
          (·.allowKey (!scanner.inFlow))
  return scanner.emitAt .value (scanner.cursor.advance 1)

/-- A name ends at white space or before certain indicators. -/
private def reference (token : List Char → Token) (scanner : Scanner) :
    Option Scanner := do
  let scanner ← scanner.expectKey
  let start := scanner.cursor.advance 1
  let name := start.rest.takeWhile isWord
  let cursor := start.advance name.length
  let ended := isGap cursor.next? || cursor.next?.any (· ∈ "?:,]\x7d%@`".toList)
  if name.isEmpty || !ended then none
  return (scanner.emitAt (token name) cursor).allowKey false

private def tag (bound : Nat) (scanner : Scanner) : Option Scanner := do
  let scanner ← scanner.expectKey
  let (tag, cursor) ← readTag bound scanner.inFlow scanner.cursor
  return (scanner.emitAt (.tag tag) cursor).allowKey false

private def block (bound : Nat) (style : BlockStyle) (scanner : Scanner) :
    Option Scanner := do
  let scanner ← scanner.giveUpKey
  let (text, cursor) ← blockScalar bound style scanner.indent scanner.cursor
  return (scanner.emitAt (.scalar false text) cursor).allowKey true

private def quoted (bound : Nat) (quotation : Quotation) (scanner : Scanner) :
    Option Scanner := do
  let scanner ← scanner.expectKey
  let (text, cursor) ← quotedScalar bound quotation scanner.cursor
  return (scanner.emitAt (.scalar false text) cursor).allowKey false

private def plain (bound : Nat) (scanner : Scanner) : Option Scanner := do
  let scanner ← scanner.expectKey
  let scalar ←
    plainScalar bound scanner.inFlow (scanner.indent + 1).toNat scanner.cursor
  return (scanner.emitAt (.scalar true scalar.text) scalar.cursor).allowKey
    scalar.broken

/-- Indicators cannot start a scalar, except that a dash, and outside of flow
collections a question mark and a colon, can when no white space follows. -/
private def startsPlain (scanner : Scanner) (char : Char) : Bool :=
  let next := scanner.cursor.after? 1
  if char == '-' then !next.any isWhite
  else if char == '?' || char == ':' then !scanner.inFlow && !isGap next
  else !(char ∈ "\t,[]\x7b\x7d#&*!|>'\"%@`".toList)

/-- Takes in one token. There is no token at the end of the text. -/
private def take (bound : Nat) (char : Char) (scanner : Scanner) :
    Option Scanner :=
  let cursor := scanner.cursor
  let flow := scanner.inFlow
  let next := cursor.after? 1
  if cursor.column = 0 && char == '%' then scanner.directive bound
  else if cursor.atDocumentStart then scanner.documentMark .documentStart
  else if cursor.atDocumentEnd then scanner.documentMark .documentEnd
  else if char == '[' then scanner.openFlow .flowSequenceStart
  else if char == '\x7b' then scanner.openFlow .flowMappingStart
  else if char == ']' then scanner.closeFlow .flowSequenceEnd
  else if char == '\x7d' then scanner.closeFlow .flowMappingEnd
  else if char == ',' then scanner.flowEntry
  else if char == '-' && isGap next then scanner.blockEntry
  else if char == '?' && (flow || isGap next) then scanner.explicitKey
  else if char == ':' && (flow || isGap next) then scanner.mappingValue
  else if char == '*' then scanner.reference .aliasOf
  else if char == '&' then scanner.reference .anchor
  else if char == '!' then scanner.tag bound
  else if char == '|' && !flow then scanner.block bound .literal
  else if char == '>' && !flow then scanner.block bound .folded
  else if char == '\'' then scanner.quoted bound .single
  else if char == '"' then scanner.quoted bound .double
  else if scanner.startsPlain char then scanner.plain bound
  else none

private def finish (scanner : Scanner) : Option (List Token) := do
  let scanner ← (scanner.closeBlocks (-1)).giveUpKey
  return scanner.tokens.reverse

private def scanFrom : (bound : Nat) → Scanner → Option (List Token)
  | 0, _ => none
  | bound + 1, scanner => do
      let scanner ← (skipFrom (bound + 1) scanner).checkKeys
      let scanner := scanner.closeBlocks scanner.cursor.column
      match scanner.cursor.next? with
      | none => scanner.finish
      | some char => scanFrom bound (← scanner.take (bound + 1) char)

end Scanner

def scan (text : List Char) : Option (List Token) :=
  if text.all isAllowed then Scanner.scanFrom (text.length + 1) (.start text)
  else none

end Schemata.Yaml
