import LoadReplay.Tag.Basic

/-!
# Tag filters

A filter is a conjunction of tags.  One key is reserved: `expected_response` asks for the outcome of
a sample instead of a tag on it.
-/

namespace LoadReplay

/-- The filter key that asks for an outcome.  Samples never carry it. -/
def outcomeKey : String := "expected_response"

/-- The tags that a sample has to have. -/
structure TagFilter where
  tags : List Tag
  deriving Repr, DecidableEq

namespace TagFilter

/-- The filter that every sample passes. -/
def any : TagFilter := ⟨[]⟩

/-- Whether the filter names no tag at all. -/
def isEmpty (f : TagFilter) : Bool := f.tags.isEmpty

/-- The wanted outcome, if the filter asks for one: success if the last such tag says `true` in any
case, failure if it says anything else. -/
def wantsSuccess (f : TagFilter) : Option Bool :=
  (f.tags.reverse.find? fun t => t.key == outcomeKey).map fun t =>
    Text.lower t.value.toList == "true".toList

/-- The tags that a sample has to carry itself. -/
def carried (f : TagFilter) : List Tag := f.tags.filter fun t => t.key != outcomeKey

/-- Whether a set has all tags that the filter wants a sample to carry. -/
def accepts (f : TagFilter) (s : TagSet) : Bool := f.carried.all fun t => s.holds t

/-- The parts of a filter text that are not blank, without the blanks around them. -/
def pieces (s : List Char) : List (List Char) :=
  ((Text.splitAll ',' s).map Text.trim).filter fun p => !p.isEmpty

/-- Reads a filter: tags between commas, where empty parts do not count. -/
def readChars (s : List Char) : Except Tag.ParseError TagFilter :=
  ((pieces s).mapM Tag.readChars).map TagFilter.mk

/-- Reads a filter. -/
def read (s : String) : Except Tag.ParseError TagFilter := readChars s.toList

/-- The written form of a filter. -/
def text (f : TagFilter) : String := Text.glue "," (f.tags.map Tag.text)

end TagFilter

end LoadReplay
