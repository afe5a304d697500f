import LunaCore.Providers.StreamedTurn

/-! `_strip_leaked_transcript`: what the caller may read of an assistant text.

    The regular expressions are alternatives of fixed names between `<` or `&lt;`, a slash or none,
    and `>`, in any case. A match is found from the left, and the search goes on after it. -/

namespace LunaCore.Providers
open LunaCore.Values

/-- `_LEAK_MARKERS`. -/
def leakMarkers : List String :=
  ["<conversation_history", "</conversation_history", "<latest>", "</latest>", "<user>",
    "<assistant>", "<tool_call", "<tool_result"]

/-- A letter under `re.IGNORECASE`: four letters beyond ASCII fold to one of its own. -/
def foldCase (c : Char) : Char :=
  if c.toNat = 0x130 ∨ c.toNat = 0x131 then 'i' else if c.toNat = 0x17F then 's'
  else if c.toNat = 0x212A then 'k' else c.toLower

/-- The rest of the text after a literal, matched in any case. -/
def afterLiteral (literal : String) (cs : List Char) : Option (List Char) :=
  if (cs.take literal.length).map foldCase = literal.toList then some (cs.drop literal.length)
  else none

/-- Whether the tag closes, opens, or may do either. -/
inductive Slash where
  | closing
  | opening
  | either

def afterSlash : Slash → List Char → Option (List Char)
  | .closing, '/' :: cs => some cs
  | .closing, _ => none
  | .opening, cs => some cs
  | .either, '/' :: cs => some cs
  | .either, cs => some cs

/-- A tag at the start of the text: how many characters it takes. -/
def tagLength (slash : Slash) (names : List String) (cs : List Char) : Option ℕ :=
  ((afterLiteral "<" cs <|> afterLiteral "&lt;" cs).bind (afterSlash slash)).bind fun rest =>
    (names.findSome? fun name => (afterLiteral name rest).bind (afterLiteral ">")).map fun rest =>
      cs.length - rest.length

/-- `regex.sub("", text)`: the tags are left out; `skip` counts what is left of one. -/
def removeTags (tag : List Char → Option ℕ) : ℕ → List Char → List Char
  | _, [] => []
  | skip + 1, _ :: cs => removeTags tag skip cs
  | 0, c :: cs => match tag (c :: cs) with
    | some n => removeTags tag (n - 1) cs
    | none => c :: removeTags tag 0 cs

/-- The text after the last tag, if there is one. -/
def afterLastTag (tag : List Char → Option ℕ) : ℕ → List Char → Option (List Char)
  | _, [] => none
  | skip + 1, _ :: cs => afterLastTag tag skip cs
  | 0, c :: cs => match tag (c :: cs) with
    | some n => (afterLastTag tag (n - 1) cs).getD (cs.drop (n - 1))
    | none => afterLastTag tag 0 cs

/-- The text before the first line that starts with a marker. -/
def beforeMarker : Bool → List Char → List Char
  | _, [] => []
  | lineStart, c :: cs =>
    if lineStart ∧ leakMarkers.any fun marker => marker.toList.isPrefixOf (c :: cs) then []
    else c :: beforeMarker (c = '\n') cs

def wrapperTag : List Char → Option ℕ :=
  tagLength .either ["assistant", "final_answer", "answer", "response", "reply"]

def reasoningClose : List Char → Option ℕ := tagLength .closing ["thinking", "reasoning"]

def reasoningOpen : List Char → Option ℕ := tagLength .opening ["thinking", "reasoning"]

def historyClose : List Char → Option ℕ :=
  tagLength .closing ["user", "latest", "conversation_history", "tool_call", "tool_result"]

/-- `_strip_leaked_transcript`. -/
def stripLeakedTranscript (text : String) : String :=
  let cut := beforeMarker true text.toList
  let reply := match afterLastTag reasoningClose 0 cut with
    | none => cut
    | some after => if after.all isSpace then removeTags reasoningClose 0 cut else after
  let cleaned := String.ofList
    (removeTags historyClose 0 (removeTags wrapperTag 0 (removeTags reasoningOpen 0 reply)))
  if cleaned = text then text else strip cleaned

end LunaCore.Providers
