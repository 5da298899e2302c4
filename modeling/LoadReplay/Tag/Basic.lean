import LoadReplay.SortedMap
import LoadReplay.Text.Blank
import LoadReplay.Text.Split

/-!
# Tags

Labels of the form `key=value` on requests and on the samples they produce.  A `TagSet` has one
value for each key and lists its tags in key order.
-/

namespace LoadReplay

/-- A label. -/
structure Tag where
  key : String
  value : String
  deriving Repr, DecidableEq

namespace Tag

/-- Why a text is not a tag. -/
inductive ParseError where
  | missingSeparator (text : String)
  | emptyKey (text : String)
  deriving Repr, DecidableEq

/-- The text of an error. -/
def ParseError.message : ParseError → String
  | .missingSeparator text => s!"Tag [{text}] must be written as key=value or key:value"
  | .emptyKey text => s!"Tag [{text}] has an empty key"

/-- The written form of a tag. -/
def text (t : Tag) : String := t.key ++ "=" ++ t.value

/-- The text of a tag, character by character. -/
theorem toList_text (t : Tag) : t.text.toList = t.key.toList ++ '=' :: t.value.toList := by
  rw [text, String.toList_append, String.toList_append, List.append_assoc]
  rfl

/-- Reads a tag.  It is cut at the first equals sign or, if there is none, at the first colon, and
the blanks around both parts are dropped. -/
def readChars (s : List Char) : Except ParseError Tag :=
  match (Text.splitOnce '=' s).or (Text.splitOnce ':' s) with
  | none => .error (.missingSeparator (String.ofList s))
  | some (key, value) =>
    let key := Text.trim key
    if key.isEmpty then .error (.emptyKey (String.ofList s))
    else .ok ⟨String.ofList key, String.ofList (Text.trim value)⟩

/-- Reads a tag. -/
def read (s : String) : Except ParseError Tag := readChars s.toList

/-- Tags are ordered by key and then by value. -/
instance : Ord Tag := ⟨fun a b => (compare a.key b.key).then (compare a.value b.value)⟩

theorem compare_def (a b : Tag) :
    compare a b = (compare a.key b.key).then (compare a.value b.value) := rfl

instance : Std.TransOrd Tag :=
  inferInstanceAs (Std.TransCmp (compareLex (compareOn Tag.key) (compareOn Tag.value)))

instance : Std.LawfulEqOrd Tag where
  eq_of_compare {a b} h := by
    rw [Tag.compare_def, Ordering.then_eq_eq] at h
    obtain ⟨hkey, hvalue⟩ := h
    obtain ⟨key, value⟩ := a
    obtain rfl : key = b.key := Std.LawfulEqCmp.eq_of_compare hkey
    obtain rfl : value = b.value := Std.LawfulEqCmp.eq_of_compare hvalue
    rfl

end Tag

/-- A value for each of some keys. -/
abbrev TagSet := SortedMap String String

namespace TagSet

/-- The tags of a set, by key. -/
def tags (s : TagSet) : List Tag := s.entries.map fun e => ⟨e.1, e.2⟩

/-- Whether the set has the tag. -/
def holds (s : TagSet) (t : Tag) : Bool := s.get? t.key == some t.value

/-- The written form of a set. -/
def text (s : TagSet) : String := Text.glue "," (s.tags.map Tag.text)

/-- Lexicographic order of tag lists. -/
def compareTags : List Tag → List Tag → Ordering
  | [], [] => .eq
  | [], _ :: _ => .lt
  | _ :: _, [] => .gt
  | a :: as, b :: bs => (compare a b).then (compareTags as bs)

/-- Sets are ordered by their lists of tags. -/
def order (a b : TagSet) : Ordering := compareTags a.tags b.tags

end TagSet

end LoadReplay
