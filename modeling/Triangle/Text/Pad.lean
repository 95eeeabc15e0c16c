/-!
# Padding

Text set to a given width with spaces.
-/

namespace Triangle.Text

/-- A character written a number of times. -/
def rule (c : Char) (width : Nat) : String :=
  String.ofList (List.replicate width c)

/-- A run of spaces. -/
def spaces (width : Nat) : String :=
  rule ' ' width

/-- A text moved to the right end of its column. -/
def alignRight (width : Nat) (text : String) : String :=
  spaces (width - text.length) ++ text

/-- A text moved to the left end of its column. -/
def alignLeft (width : Nat) (text : String) : String :=
  text ++ spaces (width - text.length)

end Triangle.Text
