import ElmReach.Encoding.Basic

/-!
# The registry of encodings

Which names stand for an encoding is not fixed once and for all: the surroundings of a run hold a
registry, which is asked for the encoding of a name. It knows the name or it does not, or it fails
while it looks the encoding up. All that is taken for granted is the encoding that settings have by
default.
-/

namespace ElmReach

/-- What a registry answers to the name of an encoding. -/
inductive CodecAnswer where
  /-- The name stands for this encoding. -/
  | known (encoding : Encoding)
  /-- No encoding of text has this name. -/
  | unknown
  /-- Looking the encoding up fails in a way of its own, for which it has a kind and a message: the
  name is not merely unknown, and the types are not to blame. -/
  | failing (kind message : String)

/-- A registry of text encodings. The registry itself knows UTF-8 by the name that the settings use;
every other name is up to the surroundings of the run. -/
structure Codecs where
  /-- What is known of a name. -/
  find : String → CodecAnswer
  find_utf8 : find "utf-8" = .known .utf8

namespace Codecs

/-- The name stands for an encoding. -/
def Knows (codecs : Codecs) (name : String) : Prop :=
  ∃ encoding, codecs.find name = .known encoding

/-- The registry that knows the encodings of this library, and an encoding that is there to fail. -/
def builtin : Codecs where
  find name :=
    if Encoding.normalName false false name.toList = "undefined".toList then
      .failing "UnicodeError"
        ("encoding with '" ++ name ++ "' codec failed (UnicodeError: undefined encoding)")
    else ((Encoding.named? name).map .known).getD .unknown
  find_utf8 := by rfl

/-- The registry that answers to one more name, unless the name is the default one. -/
def extended (codecs : Codecs) (name : String) (answer : CodecAnswer) : Codecs where
  find other := if other = name ∧ other ≠ "utf-8" then answer else codecs.find other
  find_utf8 := by
    rw [if_neg fun h => h.2 rfl]
    exact codecs.find_utf8

end Codecs

end ElmReach
