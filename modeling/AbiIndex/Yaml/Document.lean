import AbiIndex.Yaml.Node
import AbiIndex.Yaml.Tokenizer

/-!
# Reading documents

The structure of a document. A sequence that is the value of a key may stand at the indentation of
the key. Nodes are given no names, so a reference stands for none.
-/

namespace AbiIndex.Yaml

/-- What was read and the tokens behind it. -/
abbrev Read (α : Type) := Except Fault (α × List Token)

/-- Whether the next token is one of some. -/
def startsWith (options : List Token) (ts : List Token) : Bool := ts.head?.any (· ∈ options)

/-- The fault of a document that goes on with the given tokens where it must not. -/
def unexpected : List Token → Fault
  | .fault f :: _ => f
  | _ => .malformed

/-- The tokens behind the comma in a flow collection; in front of the first item there is none. -/
def skipComma (first : Bool) (ts : List Token) : Option (List Token) :=
  if first then some ts
  else
    match ts with
    | .flowEntry :: rest => some rest
    | _ => none

/-- The tokens behind a comma are not more. -/
theorem skipComma_length {first : Bool} {ts rest : List Token}
    (h : skipComma first ts = some rest) : rest.length ≤ ts.length := by
  unfold skipComma at h
  split at h
  · simp_all
  · split at h
    · simp only [Option.some.injEq] at h
      subst h
      simp
    · simp at h

/-- What may follow a key or a value that is left out in block style. -/
def blockStops : List Token := [.key, .value, .blockEnd]

/-- Whether a node without a tag stands here. -/
def startsContent (inBlock inMapping : Bool) : List Token → Bool
  | .scalar _ _ :: _ => true
  | .flowSequenceStart :: _ => true
  | .flowMappingStart :: _ => true
  | .sequenceStart :: _ => inBlock
  | .mappingStart :: _ => inBlock
  | .entry :: _ => inMapping
  | _ => false

mutual

/-- Reads a value. Block collections are allowed in block style only, and a sequence without its own
indentation as a part of a mapping only. -/
def readNode (inBlock inMapping : Bool) (ts : List Token) : Read Node :=
  match ts with
  | .scalar text isPlain :: rest => .ok (.scalar text isPlain, rest)
  | .flowSequenceStart :: rest =>
    (readFlowItems true rest).map fun (items, rest) => (.sequence items, rest)
  | .flowMappingStart :: rest =>
    (readFlowPairs true rest).map fun (pairs, rest) => (.mapping pairs, rest)
  | .sequenceStart :: rest =>
    if inBlock then (readEntries rest).map fun (items, rest) => (.sequence items, rest)
    else .error .malformed
  | .mappingStart :: rest =>
    if inBlock then (readPairs rest).map fun (pairs, rest) => (.mapping pairs, rest)
    else .error .malformed
  -- a dash without a sequence start stands at the indentation of its key
  | .entry :: rest =>
    if inMapping then (readLooseEntries rest).map fun (items, rest) => (.sequence items, rest)
    else .error .malformed
  | .tag t :: rest =>
    if startsContent inBlock inMapping rest then
      if t = .undeclared then .error .malformed
      else (readNode inBlock inMapping rest).map fun (node, rest) => (node.withTag t, rest)
    else
      -- what follows the tag is looked at before the tag itself
      match rest with
      | .fault f :: _ => .error f
      | _ =>
        if t = .undeclared then .error .malformed else .ok (Node.absent.withTag t, rest)
  | ts => .error (unexpected ts)
termination_by (ts.length, 0)

/-- Reads a node; nothing is there where one of some tokens follows. -/
def readOptional (stops : List Token) (inBlock inMapping : Bool) (ts : List Token) : Read Node :=
  if startsWith stops ts then .ok (.absent, ts) else readNode inBlock inMapping ts
termination_by (ts.length, 1)

/-- Reads the entries of a block sequence. -/
def readEntries (ts : List Token) : Read (List Node) :=
  match ts with
  | .blockEnd :: rest => .ok ([], rest)
  | .entry :: rest =>
    match readOptional [.entry, .blockEnd] true false rest with
    | .ok (item, rest') =>
      if _h : rest'.length ≤ rest.length then
        (readEntries rest').map fun (items, end') => (item :: items, end')
      else .error .malformed
    | .error f => .error f
  | ts => .error (unexpected ts)
termination_by (ts.length, 2)

/-- Reads the entries of a sequence that stands at the indentation of its key, behind its first
dash. -/
def readLooseEntries (ts : List Token) : Read (List Node) :=
  match readOptional (.entry :: blockStops) true false ts with
  | .ok (item, .entry :: rest) =>
    if _h : rest.length < ts.length then
      (readLooseEntries rest).map fun (items, end') => (item :: items, end')
    else .error .malformed
  | .ok (item, rest) => .ok ([item], rest)
  | .error f => .error f
termination_by (ts.length, 2)

/-- Reads the value behind a key, if there is one. -/
def readPairValue (stops : List Token) (inBlock : Bool) (ts : List Token) : Read Node :=
  match ts with
  | .value :: rest => readOptional stops inBlock inBlock rest
  | _ => .ok (.absent, ts)
termination_by (ts.length, 2)

/-- Reads a key and its value. -/
def readPair (keyStops valueStops : List Token) (inBlock : Bool) (ts : List Token) :
    Read (Node × Node) :=
  match readOptional keyStops inBlock inBlock ts with
  | .ok (key, rest) =>
    if _h : rest.length ≤ ts.length then
      (readPairValue valueStops inBlock rest).map fun (v, end') => ((key, v), end')
    else .error .malformed
  | .error f => .error f
termination_by (ts.length, 3)
decreasing_by
  · exact Prod.Lex.right _ (by decide)
  · rcases Nat.lt_or_eq_of_le _h with h | h
    · exact Prod.Lex.left _ _ h
    · rw [h]
      exact Prod.Lex.right _ (by decide)

/-- Reads the pairs of a block mapping. -/
def readPairs (ts : List Token) : Read (List (Node × Node)) :=
  match ts with
  | .blockEnd :: rest => .ok ([], rest)
  | .key :: rest =>
    match readPair blockStops blockStops true rest with
    | .ok (pair, rest') =>
      if _h : rest'.length ≤ rest.length then
        (readPairs rest').map fun (pairs, end') => (pair :: pairs, end')
      else .error .malformed
    | .error f => .error f
  | ts => .error (unexpected ts)
termination_by (ts.length, 4)

/-- Reads one item of a flow sequence; a single pair is a mapping of its own. -/
def readFlowItem (ts : List Token) : Read Node :=
  match ts with
  | .key :: rest =>
    (readPair [.value, .flowEntry, .flowSequenceEnd] [.flowEntry, .flowSequenceEnd] false rest).map
      fun (pair, rest) => (.mapping [pair], rest)
  | ts => readNode false false ts
termination_by (ts.length, 4)

/-- Reads the items of a flow sequence. -/
def readFlowItems (first : Bool) (ts : List Token) : Read (List Node) :=
  if startsWith [.flowSequenceEnd] ts then .ok ([], ts.tail)
  else
    match _h : skipComma first ts with
    | none => .error (unexpected ts)
    | some rest =>
      if startsWith [.flowSequenceEnd] rest then .ok ([], rest.tail)
      else
        match readFlowItem rest with
        | .ok (item, rest') =>
          if _h' : rest'.length < rest.length then
            (readFlowItems false rest').map fun (items, end') => (item :: items, end')
          else .error .malformed
        | .error f => .error f
termination_by (ts.length, 5)
decreasing_by
  all_goals
    have := skipComma_length _h
    omega

/-- Reads one pair of a flow mapping; a node alone is a key without a value. -/
def readFlowPair (ts : List Token) : Read (Node × Node) :=
  match ts with
  | .key :: rest =>
    readPair [.value, .flowEntry, .flowMappingEnd] [.flowEntry, .flowMappingEnd] false rest
  | ts => (readNode false false ts).map fun (key, rest) => ((key, .absent), rest)
termination_by (ts.length, 4)

/-- Reads the pairs of a flow mapping. -/
def readFlowPairs (first : Bool) (ts : List Token) : Read (List (Node × Node)) :=
  if startsWith [.flowMappingEnd] ts then .ok ([], ts.tail)
  else
    match _h : skipComma first ts with
    | none => .error (unexpected ts)
    | some rest =>
      if startsWith [.flowMappingEnd] rest then .ok ([], rest.tail)
      else
        match readFlowPair rest with
        | .ok (pair, rest') =>
          if _h' : rest'.length < rest.length then
            (readFlowPairs false rest').map fun (pairs, end') => (pair :: pairs, end')
          else .error .malformed
        | .error f => .error f
termination_by (ts.length, 5)
decreasing_by
  all_goals
    have := skipComma_length _h
    omega

end

/-- Reads the contents of the document and requires that nothing follows. -/
def readDocument (ts : List Token) : Except Fault Node :=
  let content : Read Node := match ts with
    | .documentStart :: rest =>
      if rest = [] || startsWith [.documentStart, .documentEnd] rest then .ok (.absent, rest)
      else readNode true false rest
    | _ => readNode true false ts
  match content with
  | .error f => .error f
  | .ok (node, rest) =>
    match rest.dropWhile (· = .documentEnd) with
    | [] => .ok node
    | more => .error (unexpected more)

/-- The structure of a text; nothing is in an empty one. -/
def Node.parse (text : List Char) : Except Fault Node :=
  match tokens text with
  | [] => .ok .absent
  | ts => readDocument ts

end AbiIndex.Yaml
