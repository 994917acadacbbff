/-! Text set in columns: cells padded to a width, and titles centred in a rule.
A text that is too wide stays as it is. -/
namespace BlockSync.Text

def alignLeft (width : Nat) (text : String) : String :=
  String.ofList (text.toList.rightpad width ' ')

def alignRight (width : Nat) (text : String) : String :=
  String.ofList (text.toList.leftpad width ' ')

/-- A title between two equal signs' worth of rule, the right side taking the odd one. -/
def ruled (width : Nat) (title : String) : String :=
  let space := width - title.length
  String.ofList (List.replicate (space / 2) '=' ++ title.toList ++
    List.replicate (space - space / 2) '=')

end BlockSync.Text
