import TaskNetwork.Text.Ranges

/-! Blanks: the code points with the Unicode property `White_Space`, in ascending ranges. -/

namespace TaskNetwork.Text

def blankRanges : List (Nat × Nat) :=
  [(9, 13), (32, 32), (133, 133), (160, 160), (5760, 5760), (8192, 8202), (8232, 8233),
   (8239, 8239), (8287, 8287), (12288, 12288)]

def isBlank (c : Char) : Bool := inRanges blankRanges c

end TaskNetwork.Text
